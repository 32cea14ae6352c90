import MqAdapters.AsyncListener.Moves

/-!
# What the ack waits for

The callback may return any awaitable.  `_run_handler` asks `asyncio.iscoroutine`, so it
awaits a coroutine, and takes a task or a future for a plain result.  The work behind
such an awaitable goes on beside the handler, and can end at any time.

* `work`: what is known of the work of a callback.
* `runHandler_minds`: `_run_handler` keeps to the work of a coroutine.
* `WithWork`: the listener, with the awaitables that end beside it.
* `Minds`: the ack, the permit and the failure of a handler follow the work of its
  callback.
* `minds_iff`: which results of a callback are minded so in every run.
-/

namespace MqAdapters

open Python Theory Code

namespace AsyncListener

/-! ## The work of a callback -/

/-- What the callback has returned. -/
def returns : Call → Option Returned
  | ⟨.callback _ _, r⟩ => match r with
    | .ok returned => some returned
    | .error _ => none
  | _ => none

def returned (past : List Call) : Option Returned := past.findSome? returns

/-- How the awaited result has ended. -/
def awaits : Call → Option (Except Raised Unit)
  | ⟨.awaitResult, r⟩ => some r
  | _ => none

def awaited (past : List Call) : Option (Except Raised Unit) := past.findSome? awaits

/-- The work that the result of a callback stands for. -/
inductive Work
  | nothing
  | pending
  | ended (r : Except Raised Unit)
  deriving DecidableEq

def Work.of : Option (Except Raised Unit) → Work
  | none => .pending
  | some r => .ended r

/-- The work of a handler that has made these calls.  A coroutine runs where it is
awaited; how another awaitable has ended, if it has, is `beside`. -/
def work (past : List Call) (beside : Option (Except Raised Unit)) : Work :=
  match returned past with
  | none | some .value => .nothing
  | some .coroutine => .of (awaited past)
  | some .awaitable => .of beside

/-- The ack has been tried. -/
def acked (past : List Call) : Bool :=
  past.any fun
    | ⟨.basicAck _ _, _⟩ => true
    | _ => false

def nacked (past : List Call) : Bool :=
  past.any fun
    | ⟨.basicNack _ _ _, _⟩ => true
    | _ => false

/-- The message is in the dead-letter queue. -/
def deadLettered (past : List Call) : Bool :=
  past.any fun
    | ⟨.defaultExchangePublish _ _ _, r⟩ => match r with
      | .ok _ => true
      | .error _ => false
    | _ => false

/-- The publish to the dead-letter queue has raised past `except Exception`. -/
def interrupted (past : List Call) : Bool :=
  past.any fun
    | ⟨.defaultExchangePublish _ _ _, r⟩ => escapes r
    | _ => false

/-- The delivery is handled as failed: nacked, or acked from the dead-letter queue, if
nothing interrupts that. -/
def failed (past : List Call) : Bool :=
  nacked past || (deadLettered past && acked past) || interrupted past

/-- The ack, the permit and the failure of a handler follow the work of its callback. -/
structure Minds (h : Handler) (w : Work) : Prop where
  acks : acked h.past = true → w = .nothing ∨ w = .ended (.ok ()) ∨
    (∃ e, w = .ended (.error e)) ∧ deadLettered h.past = true
  holds : w = .pending → ∃ g, h.permit = .held g
  fails : h.rest.done = true → ∀ e, w = .ended (.error e) → failed h.past = true

/-! ## What a handler keeps of it -/

/-- Nothing is under way that the handler waits for, and an ack was right. -/
structure Calm (past : List Call) : Prop where
  awaitable : returned past ≠ some .awaitable
  idle : work past none ≠ .pending
  acks : acked past = true → work past none = .nothing ∨ work past none = .ended (.ok ()) ∨
    deadLettered past = true

/-- The coroutine is under way; the permit is held, and nothing was acked. -/
structure Busy (past : List Call) : Prop where
  pending : work past none = .pending
  holds : holding past = true
  unacked : acked past = false

/-- What every call of a handler keeps, unless the callback has returned an awaitable
that is no coroutine. -/
def Fine (past : List Call) : Prop := returned past = some .awaitable ∨ Calm past ∨ Busy past

/-- What a handler leaves when it is over: it has handled what it could catch. -/
def Over (past : List Call) : Prop :=
  returned past = some .awaitable ∨
    Calm past ∧ (work past none = .ended (.error .exception) → failed past = true)

/-- A handler makes its calls so that what they leave is fine. -/
def awaitRules : Program.Rules Op Op.Ans Job where
  allowed _ := True
  guard past o := ∀ r, Fine (past ++ [⟨o, r⟩])
  spawn _ := []
  pre _ _ := True

@[simp] theorem awaitRules_allowed (e : Call) : awaitRules.allowed e ↔ True := Iff.rfl

@[simp] theorem awaitRules_spawn (e : Call) : awaitRules.spawn e = [] := rfl

@[simp] theorem awaitRules_guard (past : List Call) (o : Op) :
    awaitRules.guard past o ↔ ∀ r, Fine (past ++ [⟨o, r⟩]) := Iff.rfl

theorem calm_nil : Calm [] := ⟨by simp [returned], by simp [work, returned], by simp [acked]⟩

section

variable {self : Settings} {message : IncomingMessage} {past : List Call} {e : Call}

@[simp] theorem returned_append (past : List Call) (e : Call) :
    returned (past ++ [e]) = (returned past).or (returns e) := by
  simp [returned, List.findSome?_append]

@[simp] theorem awaited_append (past : List Call) (e : Call) :
    awaited (past ++ [e]) = (awaited past).or (awaits e) := by
  simp [awaited, List.findSome?_append]

/-- The work ends only where it is awaited. -/
theorem work_append (hr : returns e = none) (ha : awaits e = none) :
    work (past ++ [e]) none = work past none := by
  simp [work, hr, ha]

theorem Calm.append (h : Calm past) (hr : returns e = none) (ha : awaits e = none)
    (hack : acked [e] = true → work past none = .nothing ∨ work past none = .ended (.ok ()) ∨
      deadLettered past = true) : Calm (past ++ [e]) where
  awaitable := by rw [returned_append, hr, Option.or_none]; exact h.awaitable
  idle := by rw [work_append hr ha]; exact h.idle
  acks hacked := by
    rw [work_append hr ha]
    have hor : acked past = true ∨ acked [e] = true := by
      simpa [acked, List.any_append] using hacked
    refine (hor.elim h.acks hack).imp_right (Or.imp_right fun hd => ?_)
    exact List.any_append.trans (Bool.or_eq_true_iff.mpr (.inl hd))

/-- A result that is no coroutine is not waited for. -/
theorem wp_of_awaitable {α : Type} (p : Code α) (h : returned past = some .awaitable) :
    p.wp awaitRules (fun past _ => returned past = some .awaitable) past := by
  induction p generalizing past with
  | pure | raise => exact h
  | call o k ih =>
    have hnext : ∀ r, returned (past ++ [⟨o, r⟩]) = some .awaitable := fun r => by simp [h]
    exact ⟨fun r => .inl (hnext r), fun r _ => ⟨by simp, ih r (hnext r)⟩⟩

theorem wp_ask_awaitRules {α : Type} {o : Op} {f : o.Ans → Except Raised α}
    {Q : List Call → Except Raised α → Prop} : (Program.ask o f).wp awaitRules Q past ↔
      ∀ r, Fine (past ++ [⟨o, r⟩]) ∧ Q (past ++ [⟨o, r⟩]) (f r) := by
  simp [Program.wp_ask, forall_and]

theorem Calm.fine (h : Calm past) : Fine past := .inr (.inl h)

theorem Calm.over (h : Calm past) (hw : work past none = .nothing) : Over past :=
  .inr ⟨h, fun hfail => by cases hw.symm.trans hfail⟩

theorem failed_append (h : failed past = true) : failed (past ++ [e]) = true := by
  simp only [failed, nacked, deadLettered, acked, interrupted, List.any_append, Bool.or_eq_true,
    Bool.and_eq_true] at h ⊢
  tauto

/-- A call that is neither the callback nor an await nor the ack. -/
theorem calm_ask {α : Type} {o : Op} {f : o.Ans → Except Raised α}
    {Q : List Call → Except Raised α → Prop} (h : Calm past)
    (hquiet : ∀ r, returns ⟨o, r⟩ = none ∧ awaits ⟨o, r⟩ = none ∧ acked [⟨o, r⟩] = false)
    (hQ : ∀ r, Calm (past ++ [⟨o, r⟩]) → Q (past ++ [⟨o, r⟩]) (f r)) :
    (Program.ask o f).wp awaitRules Q past := by
  refine wp_ask_awaitRules.mpr fun r => ?_
  obtain ⟨hr, ha, hack⟩ := hquiet r
  have hcalm : Calm (past ++ [⟨o, r⟩]) :=
    h.append hr ha fun hacked => absurd (hack.symm.trans hacked) (by decide)
  exact ⟨hcalm.fine, hQ r hcalm⟩

/-- The ack, where it is right. -/
theorem calm_ack {Q : List Call → Except Raised Unit → Prop} (h : Calm past)
    (hack : work past none = .nothing ∨ work past none = .ended (.ok ()) ∨
      deadLettered past = true)
    (hQ : ∀ r, let e : Call := ⟨.basicAck message.channel message.deliveryTag, r⟩
      Calm (past ++ [e]) → Q (past ++ [e]) r) :
    message.ack.wp awaitRules Q past := by
  refine wp_ask_awaitRules.mpr fun r => ?_
  have hcalm : Calm (past ++ [⟨.basicAck message.channel message.deliveryTag, r⟩]) :=
    h.append rfl rfl fun _ => hack
  exact ⟨hcalm.fine, hQ r hcalm⟩

/-- The message is published, then acked. -/
theorem publishPoison_minds {q : String} (h : Calm past) : (publishPoison message q).wp awaitRules
    (fun past r => Calm past ∧ (r ≠ .ok false → failed past = true)) past := by
  unfold publishPoison
  rw [wp_exceptException]
  simp only [Program.bind_eq, Program.wp_bind]
  refine calm_ask h (fun _ => ⟨rfl, rfl, rfl⟩) fun isSet h => ?_
  cases isSet
  · exact ⟨h, absurd rfl⟩
  · simp only [Bool.not_true, Bool.false_eq_true, if_false, Program.wp_bind]
    refine calm_ask h (fun _ => ⟨rfl, rfl, rfl⟩) fun r h => ?_
    rcases r with (_ | _) | _
    · exact ⟨h, absurd rfl⟩
    · exact ⟨h, fun _ => by simp [failed, interrupted, escapes]⟩
    · have hdead : deadLettered (past ++ [⟨.channelIsSet, true⟩] ++
          [⟨.defaultExchangePublish q message.body message.deadLetter, .ok ()⟩]) = true := by
        simp [deadLettered]
      refine calm_ack h (.inr (.inr hdead)) fun r h => ?_
      have hfailed : ∀ e : Call, acked [e] = true → failed (past ++ [⟨.channelIsSet, true⟩] ++
          [⟨.defaultExchangePublish q message.body message.deadLetter, .ok ()⟩] ++ [e]) = true := by
        intro e he
        simp_all [failed, deadLettered, acked]
      rcases r with (_ | _) | _
      · exact ⟨h, absurd rfl⟩
      · exact ⟨h, fun _ => hfailed _ rfl⟩
      · exact ⟨h, fun _ => hfailed _ rfl⟩

theorem nack_minds {requeue : Bool} {Q : List Call → Except Raised Unit → Prop} (h : Calm past)
    (hQ : ∀ past r, Calm past → failed past = true → Q past r) :
    (message.nack requeue).wp awaitRules Q past :=
  calm_ask h (fun _ => ⟨rfl, rfl, rfl⟩) fun r h => hQ _ _ h (by simp [failed, nacked])

/-- **The `except` branch handles the delivery as failed.** -/
theorem handlerFailed_minds (hauto : self.autoAck = false) (h : Calm past) :
    (handlerFailed self message).wp awaitRules (fun past _ => Calm past ∧ failed past = true)
      past := by
  cases hq : self.config.poisonQueue (retryAttemptFromHeaders message.headers) with
  | none =>
    simp [handlerFailed, Program.wp_ite, hq, hauto]
    refine ⟨fun _ => nack_minds h ?_, fun _ => nack_minds h ?_⟩
    all_goals rintro past ((_ | _) | _) h hf <;> exact ⟨h, hf⟩
  | some q =>
    simp [handlerFailed, Program.wp_ite, hq, hauto]
    refine Program.wp_mono ?_ _ _ (publishPoison_minds h)
    rintro past ((_ | _) | (_ | _)) ⟨h, hf⟩
    · exact ⟨h, hf (by simp)⟩
    · exact ⟨h, hf (by simp)⟩
    · refine ⟨fun _ => ⟨fun _ => nack_minds h ?_, fun _ => nack_minds h ?_⟩, by simp⟩
      all_goals rintro past ((_ | _) | _) h hf <;> exact ⟨h, hf⟩
    · exact ⟨by simp, fun _ => ⟨h, hf (by simp)⟩⟩

/-- The `finally` releases the permit when nothing is waited for. -/
theorem ensure_minds {p : Code Unit} (hp : p.wp awaitRules (fun past _ => Over past) past) :
    (Program.ensure p (exceptException Code.release (pure ()))).wp awaitRules
      (fun past _ => Over past) past := by
  rw [Program.wp_ensure]
  refine Program.wp_mono (fun past r hover => ?_) p past hp
  rw [wp_exceptException]
  rcases hover with h | ⟨h, hf⟩
  · refine Program.wp_mono (fun past r h => ?_) _ _ (wp_of_awaitable Code.release h)
    rcases r with (_ | _) | _ <;> exact .inl h
  · refine calm_ask h (fun _ => ⟨rfl, rfl, rfl⟩) fun r h => ?_
    have hover : Over (past ++ [⟨.release, r⟩]) :=
      .inr ⟨h, fun hw => failed_append (hf ((work_append rfl rfl).symm.trans hw))⟩
    rcases r with (_ | _) | _ <;> exact hover

/-- What the `try` leaves: a failure of the work is an exception of its own. -/
def Tried (past : List Call) (r : Except Raised Unit) : Prop :=
  returned past = some .awaitable ∨
    Calm past ∧ (r ≠ .error .exception → work past none ≠ .ended (.error .exception))

theorem caught_minds (hauto : self.autoAck = false) {p : Code Unit}
    (hp : p.wp awaitRules Tried past) :
    (exceptException p (handlerFailed self message)).wp awaitRules (fun past _ => Over past)
      past := by
  rw [wp_exceptException]
  refine Program.wp_mono (fun past r htried => ?_) p past hp
  rcases htried with h | ⟨h, hr⟩
  · rcases r with (_ | _) | _
    · exact Program.wp_mono (fun past r => .inl) _ _ (wp_of_awaitable _ h)
    · exact .inl h
    · exact .inl h
  · rcases r with (_ | _) | _
    · exact Program.wp_mono (fun past r h => .inr ⟨h.1, fun _ => h.2⟩) _ _
        (handlerFailed_minds hauto h)
    · exact .inr ⟨h, fun hw => absurd hw (hr (by simp))⟩
    · exact .inr ⟨h, fun hw => absurd hw (hr (by simp))⟩

/-- The ack comes when the work is over. -/
theorem ack_minds (h : Calm past)
    (hw : work past none = .nothing ∨ work past none = .ended (.ok ())) :
    message.ack.wp awaitRules Tried past := by
  refine calm_ack h (hw.imp_right .inl) fun r h => ?_
  refine .inr ⟨h, fun _ hfail => ?_⟩
  rw [work_append rfl rfl] at hfail
  rcases hw with hw | hw <;> cases hw.symm.trans hfail

/-- The coroutine is awaited, and no ack comes before it has ended. -/
theorem Busy.await {r : Except Raised Unit} (h : Busy past) (hawaited : awaited past = none)
    (hreturned : returned past = some .coroutine) : Calm (past ++ [⟨.awaitResult, r⟩]) where
  awaitable := by simp [hreturned]
  idle := by simp [work, hreturned, hawaited, awaits, Work.of]
  acks hacked := by
    have hnot : acked (past ++ [⟨.awaitResult, r⟩]) = false := by
      simpa [acked, List.any_append] using h.unacked
    rw [hnot] at hacked
    cases hacked

/-- The callback and, if it returned a coroutine, the await. -/
theorem callback_minds (hauto : self.autoAck = false) (hreturned : returned past = none)
    (hacked : acked past = false) (hawaited : awaited past = none) (hhold : holding past = true) :
    (do
      let result ← callback message.properties message.body
      if result = .coroutine then
        awaitResult
      if !self.autoAck then
        message.ack : Code Unit).wp awaitRules Tried past := by
  simp only [Program.bind_eq, Program.wp_bind]
  let called (r : Except Raised Returned) : List Call :=
    past ++ [⟨.callback message.properties message.body, r⟩]
  have hreturns : ∀ r, returned (called r) =
      returns ⟨.callback message.properties message.body, r⟩ := fun r => by
    simp [called, hreturned]
  have hnot : ∀ r, acked (called r) = false := fun r => by
    simpa [called, acked, List.any_append] using hacked
  -- nothing to wait for
  have hcalm : ∀ r, r ≠ .ok .coroutine → r ≠ .ok .awaitable →
      Calm (called r) ∧ work (called r) none = .nothing := by
    intro r hcoroutine hawaitable
    have hnothing : work (called r) none = .nothing := by
      rw [work, hreturns]
      rcases r with _ | _ | _ | _
      · rfl
      · rfl
      · exact absurd rfl hcoroutine
      · exact absurd rfl hawaitable
    refine ⟨⟨?_, by simp [hnothing], fun hacked => .inl hnothing⟩, hnothing⟩
    rw [hreturns]
    rcases r with _ | _ | _ | _
    · simp [returns]
    · simp [returns]
    · simp [returns]
    · exact absurd rfl hawaitable
  have hbusy : Busy (called (.ok .coroutine)) :=
    ⟨by simp [work, hreturns, returns, called, hawaited, awaits, Work.of],
      by simp [called, hold, hhold], hnot _⟩
  refine wp_ask_awaitRules.mpr fun r => ⟨?_, ?_⟩
  · by_cases hcoroutine : r = .ok .coroutine
    · exact hcoroutine ▸ .inr (.inr hbusy)
    · by_cases hawaitable : r = .ok .awaitable
      · exact hawaitable ▸ .inl (hreturns _)
      · exact (hcalm r hcoroutine hawaitable).1.fine
  · rcases r with e | _ | _ | _
    · have h := hcalm (.error e) (by simp) (by simp)
      exact .inr ⟨h.1, fun _ hfail => by cases h.2.symm.trans hfail⟩
    · have h := hcalm (.ok .value) (by simp) (by simp)
      simp only [id, hauto]
      exact ack_minds h.1 (.inl h.2)
    · -- the coroutine
      have hnone : awaited (called (.ok .coroutine)) = none := by simp [called, hawaited, awaits]
      have hended : ∀ r, work (called (.ok .coroutine) ++ [⟨.awaitResult, r⟩]) none = .ended r :=
        fun r => by simp [work, hreturns, returns, hnone, awaits, Work.of]
      have hover : ∀ r, Calm (called (.ok .coroutine) ++ [⟨.awaitResult, r⟩]) := fun r =>
        hbusy.await hnone (hreturns _)
      simp only [id, if_true, Program.wp_bind]
      refine wp_ask_awaitRules.mpr fun r => ⟨(hover r).fine, ?_⟩
      rcases r with e | _
      · refine .inr ⟨hover _, fun hr hfail => hr ?_⟩
        exact Work.ended.inj ((hended _).symm.trans hfail)
      · simp only [id, hauto]
        exact ack_minds (hover _) (.inr (hended _))
    · exact Program.wp_mono (fun past r => .inl) _ _ (wp_of_awaitable _ (hreturns _))

/-- **`_run_handler` minds the work of a coroutine.** -/
theorem runHandler_minds (hauto : self.autoAck = false) :
    (runHandler self message).wp awaitRules (fun past _ => Over past) [] := by
  have hcalm : Calm [] := calm_nil
  unfold runHandler
  simp only [Program.bind_eq, Program.wp_bind]
  refine calm_ask hcalm (fun _ => ⟨rfl, rfl, rfl⟩) fun isSet hcalm => ?_
  cases isSet
  · exact hcalm.over rfl
  · simp only [Bool.not_true, Bool.false_eq_true, if_false, Program.wp_bind]
    refine calm_ask hcalm (fun _ => ⟨rfl, rfl, rfl⟩) fun r hcalm => ?_
    rcases r with (_ | _) | _
    · exact hcalm.over rfl
    · exact hcalm.over rfl
    · exact ensure_minds (caught_minds hauto (callback_minds hauto rfl rfl rfl rfl))

end

/-! ## The handlers of a run -/

/-- A handler keeps the rules of its work and of its permit. -/
structure Mindful (h : Handler) : Prop where
  wp : h.rest.wp awaitRules (fun past _ => Over past) h.past
  fine : Fine h.past
  disciplined : Disciplined h

section

variable {self : Config} {h h' : Handler}

theorem Mindful.answer {o : Op} {k : o.Ans → Code Unit} {r : o.Ans} (hm : Mindful h)
    (hrest : h.rest = .call o k) {permit : Permit}
    (hd : Disciplined { h.answer o k r with permit := permit }) :
    Mindful { h.answer o k r with permit := permit } := by
  have hwp := hm.wp
  rw [hrest] at hwp
  exact ⟨(hwp.2 r trivial).2, hwp.1 r, hd⟩

theorem Mindful.moves (hm : Mindful h) (hh : Moves h h') : Mindful h' := by
  have hd := hm.disciplined.moves hh
  cases hh with
  | answer o k r hrest => exact hm.answer hrest hd
  | acquire k g hrest => exact hm.answer hrest hd
  | refuse k e permit hrest => exact hm.answer hrest hd
  | release k r hrest => exact hm.answer hrest hd
  | park | cancel => exact ⟨hm.wp, hm.fine, hd⟩
  | drop hpast =>
    refine ⟨?_, hm.fine, hd⟩
    rw [Program.wp_raise, hpast]
    exact calm_nil.over rfl

theorem mindful_new (hauto : self.settings.autoAck = false) (message : IncomingMessage) :
    Mindful ⟨message, [], runHandler self.settings message, .none, false⟩ :=
  ⟨runHandler_minds hauto, calm_nil.fine, runHandler_holds, by simp⟩

/-- How the awaitable ends beside the handler matters only if it is no coroutine. -/
theorem work_beside {past : List Call} (hk : returned past ≠ some .awaitable)
    (beside : Option (Except Raised Unit)) : work past beside = work past none := by
  unfold work
  split <;> first | rfl | exact absurd ‹_› hk

/-- **A handler that keeps the rules minds its work**, unless that ends with an
exception past `except Exception`. -/
theorem Mindful.minds (hm : Mindful h) (hk : returned h.past ≠ some .awaitable)
    (beside : Option (Except Raised Unit))
    (hend : work h.past beside ≠ .ended (.error .baseException)) :
    Minds h (work h.past beside) := by
  rw [work_beside hk] at hend ⊢
  have hcases : Calm h.past ∨ Busy h.past := hm.fine.resolve_left hk
  refine ⟨fun hacked => ?_, fun hpending => ?_, fun hdone e he => ?_⟩
  · rcases hcases with hcalm | hbusy
    · rcases hcalm.acks hacked with hw | hw | hdead
      · exact .inl hw
      · exact .inr (.inl hw)
      · cases hw : work h.past none with
        | nothing => exact .inl rfl
        | pending => exact absurd hw hcalm.idle
        | ended r =>
          cases r with
          | ok => exact .inr (.inl rfl)
          | error e => exact .inr (.inr ⟨⟨e, rfl⟩, hdead⟩)
    · rw [hbusy.unacked] at hacked
      cases hacked
  · rcases hcases with hcalm | hbusy
    · exact absurd hpending hcalm.idle
    · exact hm.disciplined.permit hbusy.holds
  · have hover : Over h.past := by
      have hwp := hm.wp
      cases hrest : h.rest with
      | pure => rw [hrest] at hwp; exact hwp
      | raise => rw [hrest] at hwp; exact hwp
      | call => rw [hrest] at hdone; cases hdone
    cases e with
    | exception => exact (hover.resolve_left hk).2 he
    | baseException => exact absurd he hend

end

/-! ## The work beside the handlers -/

/-- The listener, and how the awaitables have ended that its handlers do not wait for,
each with the handler whose callback returned it. -/
structure WithWork where
  listener : AsyncListener
  ended : List (Nat × Except Raised Unit)

namespace WithWork

inductive Action
  | listener (a : AsyncListener.Action)
  /-- the work of the `i`-th handler ends -/
  | finish (i : Nat) (r : Except Raised Unit)

def initial : WithWork := ⟨AsyncListener.initial, []⟩

/-- How the awaitable of the `i`-th handler has ended. -/
def beside (q : WithWork) (i : Nat) : Option (Except Raised Unit) := q.ended.lookup i

def step (self : Config) (q : WithWork) : Action → Option WithWork
  | .listener a => (q.listener.step self a).map fun s => { q with listener := s }
  | .finish i r =>
    if (q.listener.handlers[i]?).any (fun h => returned h.past == some .awaitable) &&
        (q.beside i).isNone then
      some { q with ended := q.ended ++ [(i, r)] }
    else none

def machine (self : Config) : Machine WithWork Action where
  init := initial
  step := step self

end WithWork

/-- In every run, each handler whose callback returns this and whose work ends so, if it
ends, minds it. -/
def MindsAll (self : Config) (result : Returned) (outcome : Except Raised Unit) : Prop :=
  ∀ q, (WithWork.machine self).Reach Machine.anyStep q → ∀ i h, q.listener.handlers[i]? = some h →
    returned h.past = some result →
      (∀ r, work h.past (q.beside i) = .ended r → r = outcome) →
        Minds h (work h.past (q.beside i))

section

variable {self : Config} {q : WithWork} {s : AsyncListener}

theorem mindful_of_reach (hauto : self.settings.autoAck = false)
    (h : (WithWork.machine self).Reach Machine.anyStep q) :
    ∀ h ∈ q.listener.handlers, Mindful h := by
  refine h.invariant (P := fun q => ∀ h ∈ q.listener.handlers, Mindful h)
    (fun _ hh => absurd hh List.not_mem_nil) ?_
  intro q a q' _ _ hq ht
  cases a with
  | listener a =>
    obtain ⟨s, hs, rfl⟩ := Option.map_eq_some_iff.mp ht
    exact forall_step (fun _ _ => Mindful.moves) (mindful_new hauto) hq hs
  | finish i r =>
    simp only [WithWork.machine, WithWork.step] at ht
    split at ht <;> cases ht
    exact hq

/-- A run of the listener in which no work ends beside it. -/
theorem withWork_reach (h : (machine self).Reach Machine.anyStep s) :
    (WithWork.machine self).Reach Machine.anyStep ⟨s, []⟩ := by
  refine h.invariant (P := fun s => (WithWork.machine self).Reach Machine.anyStep ⟨s, []⟩)
    Machine.Reach.init fun s a t _ _ hs ht => hs.snoc (a := .listener a) trivial ?_
  simp only [machine] at ht
  simp [WithWork.machine, WithWork.step, ht]

end

/-! ## Two runs of any configuration -/

theorem concurrency_pos (self : Config) : 0 < self.concurrency := by
  unfold Config.concurrency
  cases hmax : self.maxConcurrency with
  | none =>
    dsimp only
    split
    · next hprefetches =>
      simp only [Config.prefetches, Bool.and_eq_true, bne_iff_ne, decide_eq_true_eq] at hprefetches
      omega
    · decide
  | some n => dsimp only; omega

/-- `start` is about to declare the exchange. -/
def declaring : AsyncListener := { initial with
  conn := some 0
  channel := some 0
  connections := [true]
  channels := [⟨0, true⟩]
  starts := [.going (.declareExchange 0)] }

theorem declaring_reach (self : Config) : (machine self).Reach Machine.anyStep declaring := by
  have hchannel : (machine self).Reach Machine.anyStep { initial with
      conn := some 0
      connections := [true]
      starts := [.going (.channel 0)] } :=
    (Machine.Reach.init.snoc (a := .callStart) trivial rfl).snoc (a := .start 0 false) trivial rfl
  -- whether `set_qos` is called depends on the configuration
  by_cases hprefetches : self.prefetches = true
  · have hqos : (machine self).Reach Machine.anyStep { declaring with
        starts := [.going (.setQos 0)] } := hchannel.snoc (a := .start 0 false) trivial (by
      simp [machine, step, start, startStep, hprefetches, initial, onChannel, declaring]
      decide)
    exact hqos.snoc (a := .start 0 false) trivial rfl
  · exact hchannel.snoc (a := .start 0 false) trivial (by
      simp [machine, step, start, startStep, hprefetches, initial, onChannel, declaring]
      decide)

/-- A message without properties. -/
def plain : IncomingMessage := ⟨0, 1, none, none, [104]⟩

/-- `start` has called `consume`, and there is one handler. -/
def handling (h : Handler) (permits : Nat) : AsyncListener :=
  { declaring with
    queue := some 0
    semaphore := some 0
    inFlight := if h.rest.done then [] else [0]
    semaphores := [⟨permits, []⟩]
    starts := [.going (.consume 0)]
    handlers := [h] }

/-- The handler has called its callback. -/
theorem called_reach (self : Config) (r : Except Raised Returned) :
    ∃ permits, (machine self).Reach Machine.anyStep (handling ⟨plain,
      [⟨.semaphoreIsSet, true⟩, ⟨.acquire, .ok ()⟩, ⟨.callback none [104], r⟩],
      Program.ensure
        (exceptException
          ((Program.ofExcept r).bind fun result => do
            if result = .coroutine then
              awaitResult
            if !self.settings.autoAck then
              plain.ack)
          (handlerFailed self.settings plain))
        (exceptException Code.release (return)), .held 0, false⟩ permits) := by
  have h : (machine self).Reach Machine.anyStep
      (handling ⟨plain, [], runHandler self.settings plain, .none, false⟩ self.concurrency) :=
    ((((declaring_reach self).snoc (a := .start 0 false) trivial rfl).snoc (a := .start 0 false)
      trivial rfl).snoc (a := .start 0 false) trivial rfl).snoc (a := .deliver plain) trivial rfl
  obtain ⟨permits, hpermits⟩ : ∃ permits, self.concurrency = permits + 1 :=
    ⟨self.concurrency - 1, by have := concurrency_pos self; omega⟩
  rw [hpermits] at h
  let answers : ∀ o : Op, o.Ans := answering r (.ok ()) (.ok ())
  exact ⟨permits, ((h.snoc (a := .handle 0 answers) trivial rfl).snoc (a := .handle 0 answers)
    trivial rfl).snoc (a := .handle 0 answers) trivial rfl⟩

/-- The callback has returned a task or a future, and the message is acked. -/
theorem overtaken_reach {self : Config} (hauto : self.settings.autoAck = false) :
    ∃ rest permits, (machine self).Reach Machine.anyStep (handling ⟨plain,
      [⟨.semaphoreIsSet, true⟩, ⟨.acquire, .ok ()⟩, ⟨.callback none [104], .ok .awaitable⟩,
        ⟨.basicAck 0 1, .ok ()⟩], rest, .held 0, false⟩ permits) := by
  obtain ⟨permits, h⟩ := called_reach self (.ok .awaitable)
  rw [hauto] at h
  let answers : ∀ o : Op, o.Ans := answering (.ok .awaitable) (.ok ()) (.ok ())
  exact ⟨_, permits, h.snoc (a := .handle 0 answers) trivial rfl⟩

/-- The callback has returned a coroutine, which has raised past `except Exception`. -/
theorem escaped_reach (self : Config) :
    ∃ permits, (machine self).Reach Machine.anyStep (handling ⟨plain,
      [⟨.semaphoreIsSet, true⟩, ⟨.acquire, .ok ()⟩, ⟨.callback none [104], .ok .coroutine⟩,
        ⟨.awaitResult, .error .baseException⟩, ⟨.release, .ok ()⟩],
      .raise .baseException, .none, false⟩ permits) := by
  obtain ⟨permits, h⟩ := called_reach self (.ok .coroutine)
  let answers : ∀ o : Op, o.Ans := answering (.error .baseException) (.ok ()) (.ok ())
  exact ⟨_, (h.snoc (a := .handle 0 answers) trivial rfl).snoc (a := .handle 0 answers) trivial
    rfl⟩

/-- The message is acked while a task or a future goes on. -/
theorem not_mindsAll_awaitable {self : Config} (hauto : self.settings.autoAck = false)
    (outcome : Except Raised Unit) : ¬ MindsAll self .awaitable outcome := by
  intro h
  obtain ⟨rest, permits, hreach⟩ := overtaken_reach hauto
  have hminds := h _ (withWork_reach hreach) 0 _ rfl rfl fun r hr => by cases hr
  obtain hw | hw | ⟨⟨e, hw⟩, -⟩ := hminds.acks rfl
  all_goals cases hw

/-- Nothing is nacked when a coroutine raises past `except Exception`. -/
theorem not_mindsAll_escaped (self : Config) :
    ¬ MindsAll self .coroutine (.error .baseException) := by
  intro h
  obtain ⟨permits, hreach⟩ := escaped_reach self
  have hminds := h _ (withWork_reach hreach) 0 _ rfl rfl fun r hr => (Work.ended.inj hr).symm
  exact absurd (hminds.fails rfl .baseException rfl) (by decide)

/-- **Which results of a callback the handler minds**: none, and a coroutine, unless that
ends with an exception past `except Exception`.  Of a task, a future or any other awaitable
it minds nothing, however that ends. -/
theorem minds_iff {self : Config} (hauto : self.settings.autoAck = false) (result : Returned)
    (outcome : Except Raised Unit) : MindsAll self result outcome ↔
      result = .value ∨ result = .coroutine ∧ outcome ≠ .error .baseException := by
  constructor
  · intro h
    cases result with
    | value => exact .inl rfl
    | coroutine => exact .inr ⟨rfl, fun ho => not_mindsAll_escaped self (ho ▸ h)⟩
    | awaitable => exact absurd h (not_mindsAll_awaitable hauto outcome)
  · intro h q hreach i x hx hresult hended
    have hmindful := mindful_of_reach hauto hreach x (List.mem_of_getElem? hx)
    refine hmindful.minds ?_ _ fun hbase => ?_
    · rw [hresult]
      rcases h with rfl | ⟨rfl, -⟩ <;> simp
    · have houtcome := hended _ hbase
      rcases h with rfl | ⟨rfl, hne⟩
      · simp [work, hresult] at hbase
      · exact hne houtcome.symm

theorem minds_iff_acking :
    MindsAll acking .coroutine (.error .exception) ∧ ¬ MindsAll acking .awaitable (.ok ()) :=
  ⟨(minds_iff rfl _ _).mpr (.inr ⟨rfl, by simp⟩),
    fun h => absurd ((minds_iff rfl _ _).mp h) (by decide)⟩

/-- The callback of the only delivery returns a task; the handler is over, and the task
goes on. -/
def outlived : WithWork :=
  ((WithWork.machine acking).runIn (fun _ _ => true) WithWork.initial
    ((startAll 0 ++ Action.deliver plain :: List.replicate 5
      (Action.handle 0 (answering (.ok .awaitable) (.ok ()) (.ok ())))).map .listener)).getD
    WithWork.initial

/-- The task has raised. -/
def lost : WithWork :=
  ((WithWork.machine acking).runIn (fun _ _ => true) outlived
    [.finish 0 (.error .exception)]).getD outlived

/-- **The ack does not wait for a task**: the message is acked and the permit released
while the task goes on, and when that raises, nothing is nacked. -/
theorem task_outlives_ack :
    (WithWork.machine acking).Reach Machine.anyStep outlived ∧
    (WithWork.machine acking).Path Machine.anyStep outlived lost ∧
    ((outlived.listener.handlers[0]?).any fun h => work h.past (outlived.beside 0) == .pending &&
      acked h.past && h.permit == .none) = true ∧
    ((lost.listener.handlers[0]?).any fun h =>
      work h.past (lost.beside 0) == .ended (.error .exception) && h.rest.done &&
        !failed h.past) = true ∧
    ¬ MindsAll acking .awaitable (.error .exception) := by
  have hreach : (WithWork.machine acking).Path (fun _ _ => true = true) WithWork.initial outlived :=
    Machine.path_of_isSome (by decide +kernel) WithWork.initial
  have hlost : (WithWork.machine acking).Path (fun _ _ => true = true) outlived lost :=
    Machine.path_of_isSome (by decide +kernel) outlived
  refine ⟨hreach.mono fun _ _ _ => trivial, hlost.mono fun _ _ _ => trivial, by decide +kernel,
    by decide +kernel, not_mindsAll_awaitable rfl _⟩

end AsyncListener

end MqAdapters
