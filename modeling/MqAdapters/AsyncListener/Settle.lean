import MqAdapters.AsyncListener.Concurrency
import MqAdapters.AsyncListener.Start

/-!
# `stop` settles before it closes

`stop` waits for a snapshot of `self._in_flight`, which the tasks leave one by one
while it waits.

* `runHandler_attempts`: `_run_handler` acks or nacks, unless something raises what
  `except Exception` lets through, or the semaphore is gone.
* `timely`: no delivery comes in between the cancel and the close, and the handlers
  are over before `stop` stops waiting.
* `Tracked`: a handler that is not over is in `self._in_flight`, and in the snapshot
  of every `stop` that waits; then `self._semaphore` is set.
* `settles_before_close`: when `stop` is about to close the channel, each handler is
  over and has tried to ack or nack.
-/

namespace MqAdapters

open Python Theory Code

namespace AsyncListener

/-! ## What one handler attempts -/

/-- The call tries to settle the message. -/
def settling (message : IncomingMessage) : Call → Bool
  | ⟨.basicAck ch deliveryTag, _⟩ => ch == message.channel && deliveryTag == message.deliveryTag
  | ⟨.basicNack ch deliveryTag _, _⟩ =>
    ch == message.channel && deliveryTag == message.deliveryTag
  | _ => false

/-- One of the calls tries to settle the message. -/
def attempted (message : IncomingMessage) (past : List Call) : Bool := past.any (settling message)

@[simp] theorem attempted_append (message : IncomingMessage) (past : List Call) (e : Call) :
    attempted message (past ++ [e]) = (attempted message past || settling message e) := by
  simp [attempted]

/-- The answer is an exception that `except Exception` lets through. -/
def escapes {α : Type} : Except Raised α → Bool
  | .error .baseException => true
  | _ => false

/-- The callback and the publish to the dead-letter queue raise nothing that
`except Exception` lets through. -/
def caught : Call → Bool
  | ⟨.callback _ _, r⟩ => !escapes r
  | ⟨.awaitResult, r⟩ => !escapes r
  | ⟨.defaultExchangePublish _ _ _, r⟩ => !escapes r
  | _ => true

/-- The semaphore is there. -/
def guarded : Call → Prop
  | ⟨.semaphoreIsSet, r⟩ => r = true
  | ⟨.acquire, r⟩ => r = .ok ()
  | _ => True

/-- The rules of a handler that is not disturbed. -/
def settleRules : Program.Rules Op Op.Ans Job :=
  Program.free (fun e => caught e = true ∧ guarded e) fun _ => []

section

variable {self : Settings} {message : IncomingMessage} {past : List Call}

@[simp] theorem settleRules_allowed (e : Call) :
    settleRules.allowed e ↔ caught e = true ∧ guarded e := Iff.rfl

@[simp] theorem settleRules_spawn (e : Call) : settleRules.spawn e = [] := rfl

@[simp] theorem settleRules_guard (o : Op) : settleRules.guard past o ↔ True := Iff.rfl

theorem nack_attempts {requeue : Bool} {Q : List Call → Except Raised Unit → Prop}
    (hQ : ∀ past r, attempted message past = true → Q past r) :
    (message.nack requeue).wp settleRules Q past := by
  simp [IncomingMessage.nack, caught, guarded, settling, hQ]

theorem ack_attempts {Q : List Call → Except Raised Unit → Prop}
    (hQ : ∀ past r, attempted message past = true → Q past r) :
    message.ack.wp settleRules Q past := by
  simp [IncomingMessage.ack, caught, guarded, settling, hQ]

/-- The poison branch acks, or falls through. -/
theorem publishPoison_attempts {q : String} : (publishPoison message q).wp settleRules
    (fun past r => r = .ok false ∨ attempted message past = true) past := by
  simp [publishPoison, IncomingMessage.ack, Program.wp_ite, caught, guarded, settling, escapes]

theorem handlerFailed_attempts (hauto : self.autoAck = false) :
    (handlerFailed self message).wp settleRules (fun past _ => attempted message past = true)
      past := by
  cases hq : self.config.poisonQueue (retryAttemptFromHeaders message.headers) with
  | none =>
    simp [handlerFailed, Program.wp_ite, hq, hauto]
    refine ⟨fun _ => nack_attempts ?_, fun _ => nack_attempts ?_⟩
    all_goals rintro past ((_ | _) | _) h <;> exact h
  | some q =>
    simp [handlerFailed, Program.wp_ite, hq, hauto]
    refine Program.wp_mono ?_ _ _ publishPoison_attempts
    rintro past r (rfl | h)
    · refine ⟨fun _ => ⟨fun _ => nack_attempts ?_, fun _ => nack_attempts ?_⟩,
        fun h => by cases h⟩
      all_goals rintro past ((_ | _) | _) h <;> exact h
    · rcases r with (_ | _) | _
      · exact h
      · exact h
      · refine ⟨fun _ => ⟨fun _ => nack_attempts ?_, fun _ => nack_attempts ?_⟩, fun _ => h⟩
        all_goals rintro past ((_ | _) | _) h <;> exact h

/-- **`_run_handler` acks or nacks** before it ends. -/
theorem runHandler_attempts (hauto : self.autoAck = false) :
    (runHandler self message).wp settleRules (fun past _ => attempted message past = true) [] := by
  simp [runHandler, Program.wp_ite, hauto, caught, guarded, escapes, settling]
  refine ⟨⟨ack_attempts ?_, ⟨ack_attempts ?_, handlerFailed_attempts hauto⟩, ack_attempts ?_⟩,
    handlerFailed_attempts hauto⟩
  all_goals
    rintro past ((_ | _) | _) h
    exacts [handlerFailed_attempts hauto, h, h]

end

/-! ## What is still under way -/

/-- `stop` has left the cancel behind, and has not closed the channel. -/
def StopPc.drains : StopPc → Bool
  | .wait _ _ | .waitCancelled _ | .closeChannel _ => true
  | _ => false

/-- The handlers are over before `stop` stops waiting, and no delivery comes in
between its cancel and its close, or before `start` has made the next semaphore. -/
def timely (s : AsyncListener) : Action → Bool
  | .stop i _ => match s.stops[i]? with
    | some (.wait tasks _) => s.allDone tasks
    | _ => true
  | .deliver _ => s.semaphore.isSome && s.stops.all fun pc => !pc.drains
  | _ => true

/-- The call that the handler is about to make raises nothing that `except Exception`
lets through, if it is the callback or a publish. -/
def contained (s : AsyncListener) : Action → Bool
  | .handle i answers => (s.handlers[i]?).all fun h => match h.rest with
    | .call o _ => caught ⟨o, answers o⟩
    | _ => true
  | _ => true

def orderly (s : AsyncListener) (a : Action) : Bool := timely s a && contained s a

/-- The handler keeps the rules, and nobody has cancelled it. -/
structure Attended (h : Handler) : Prop where
  wp : h.rest.wp settleRules (fun past _ => attempted h.message past = true) h.past
  fresh : h.cancelled = false

theorem Attended.attempted {h : Handler} (ha : Attended h) (hdone : h.rest.done = true) :
    attempted h.message h.past = true := by
  have hwp := ha.wp
  cases hrest : h.rest with
  | pure => rw [hrest] at hwp; exact hwp
  | raise => rw [hrest] at hwp; exact hwp
  | call => rw [hrest] at hdone; cases hdone

/-- The handlers that are not over are all among `tasks`. -/
def Within (s : AsyncListener) (tasks : List Nat) : Prop :=
  ∀ i h, s.handlers[i]? = some h → h.rest.done = false → i ∈ tasks

/-- The handlers that a `stop` has to wait for. -/
def Awaited (s : AsyncListener) : StopPc → Prop
  | .wait tasks _ | .waitCancelled tasks => s.Within tasks
  | .closeChannel _ => s.Within []
  | _ => True

/-- Whatever is not over is in `self._in_flight` and waited for. -/
structure Tracked (s : AsyncListener) : Prop where
  attended : ∀ h ∈ s.handlers, Attended h
  inFlight : s.Within s.inFlight
  semaphore : s.semaphore = none → s.Within []
  stops : ∀ pc ∈ s.stops, s.Awaited pc

variable {self : Config} {s t : AsyncListener} {i : Nat} {h h' : Handler}

/-- What the step of one handler changes. -/
structure Goes (s t : AsyncListener) (i : Nat) (h h' : Handler) : Prop where
  handlers : t.handlers = s.handlers.set i h'
  inFlight : t.inFlight = if h'.rest.done then s.inFlight.erase i else s.inFlight
  semaphore : t.semaphore = s.semaphore
  stops : t.stops = s.stops

theorem Within.goes {tasks : List Nat} (hw : s.Within tasks) (hg : Goes s t i h h')
    (hi : s.handlers[i]? = some h) (hrest : h.rest.done = false) : t.Within tasks := by
  intro j x hj hx
  rw [hg.handlers] at hj
  by_cases hij : i = j
  · subst hij
    exact hw i h hi hrest
  · rw [List.getElem?_set_ne hij] at hj
    exact hw j x hj hx

theorem Within.inFlight_goes (hw : s.Within s.inFlight) (hg : Goes s t i h h')
    (hi : s.handlers[i]? = some h) (hrest : h.rest.done = false) : t.Within t.inFlight := by
  intro j x hj hx
  have hin := hw.goes hg hi hrest j x hj hx
  rw [hg.inFlight]
  split
  · next hdone =>
    have hij : j ≠ i := by
      rintro rfl
      rw [hg.handlers, List.getElem?_set_self (List.getElem?_eq_some_iff.mp hi).1] at hj
      cases hj
      rw [hdone] at hx
      cases hx
    exact (List.mem_erase_of_ne hij).mpr hin
  · exact hin

theorem Awaited.goes {pc : StopPc} (hw : s.Awaited pc) (hg : Goes s t i h h')
    (hi : s.handlers[i]? = some h) (hrest : h.rest.done = false) : t.Awaited pc := by
  cases pc with
  | wait | waitCancelled | closeChannel => exact Within.goes hw hg hi hrest
  | cancelConsumer | closeConnection | returned => trivial

theorem Tracked.goes (hs : Tracked s) (hg : Goes s t i h h') (hi : s.handlers[i]? = some h)
    (hrest : h.rest.done = false) (ha : Attended h') : Tracked t where
  attended x hx := by
    rw [hg.handlers] at hx
    rcases List.mem_or_eq_of_mem_set hx with hx | rfl
    · exact hs.attended x hx
    · exact ha
  inFlight := hs.inFlight.inFlight_goes hg hi hrest
  semaphore hnone := (hs.semaphore (hg.semaphore ▸ hnone)).goes hg hi hrest
  stops pc hpc := (hs.stops pc (hg.stops ▸ hpc)).goes hg hi hrest

theorem goes_goOn : Goes s (s.goOn i h') i h h' := ⟨rfl, rfl, rfl, rfl⟩

theorem Attended.answer {o : Op} {k : o.Ans → Code Unit} (ha : Attended h)
    (hrest : h.rest = .call o k) {r : o.Ans} (hr : caught ⟨o, r⟩ = true ∧ guarded ⟨o, r⟩) :
    Attended (h.answer o k r) where
  wp := by
    have hwp := ha.wp
    rw [hrest] at hwp
    exact (hwp.2 r hr).2
  fresh := ha.fresh

theorem Attended.withPermit {permit : Permit} (ha : Attended h) :
    Attended { h with permit := permit } := ⟨ha.wp, ha.fresh⟩

theorem tracked_acquire {k : Op.acquire.Ans → Code Unit} (hs : Tracked s)
    (hi : s.handlers[i]? = some h) (hrest : h.rest = .call .acquire k) (hset : s.semaphore ≠ none)
    (ht : s.acquire i h k = some t) : Tracked t := by
  have ha := hs.attended h (List.mem_of_getElem? hi)
  have hgoing : h.rest.done = false := by rw [hrest]; rfl
  unfold acquire at ht
  split at ht
  · next hnone => exact absurd hnone hset
  · next g hg =>
    obtain ⟨sem, -, rfl⟩ := Option.map_eq_some_iff.mp ht
    split
    · exact hs.goes ⟨rfl, rfl, rfl, rfl⟩ hi hgoing ha.withPermit
    · exact hs.goes ⟨rfl, rfl, rfl, rfl⟩ hi hgoing (ha.answer hrest ⟨rfl, rfl⟩).withPermit

theorem tracked_acquired {g : Nat} {k : Op.acquire.Ans → Code Unit} (hs : Tracked s)
    (hi : s.handlers[i]? = some h) (hrest : h.rest = .call .acquire k)
    (ht : s.acquired i h g k = some t) : Tracked t := by
  have ha := hs.attended h (List.mem_of_getElem? hi)
  have hgoing : h.rest.done = false := by rw [hrest]; rfl
  obtain ⟨sem, -, ht⟩ := Option.bind_eq_some_iff.mp ht
  -- nobody has cancelled the handler
  rw [if_neg (by simp [ha.fresh])] at ht
  split at ht <;> cases ht
  exact hs.goes ⟨rfl, rfl, rfl, rfl⟩ hi hgoing (ha.answer hrest ⟨rfl, rfl⟩).withPermit

theorem tracked_release {k : Op.release.Ans → Code Unit} (hs : Tracked s)
    (hi : s.handlers[i]? = some h) (hrest : h.rest = .call .release k) :
    Tracked (s.release i h k) := by
  have ha := hs.attended h (List.mem_of_getElem? hi)
  have hgoing : h.rest.done = false := by rw [hrest]; rfl
  unfold release
  split
  all_goals
    exact hs.goes ⟨rfl, rfl, rfl, rfl⟩ hi hgoing (ha.answer hrest ⟨rfl, trivial⟩).withPermit

theorem tracked_handle {answers : ∀ o : Op, o.Ans} (hs : Tracked s)
    (hc : contained s (.handle i answers) = true) (ht : s.handle i answers = some t) :
    Tracked t := by
  obtain ⟨h, hi, ht⟩ := Option.bind_eq_some_iff.mp ht
  have ha := hs.attended h (List.mem_of_getElem? hi)
  simp only [contained, hi, Option.all_some] at hc
  cases hrest : h.rest with
  | pure a => simp only [hrest] at ht; cases ht
  | raise x => simp only [hrest] at ht; cases ht
  | call o k =>
    simp only [hrest] at ht hc
    have hgoing : h.rest.done = false := by rw [hrest]; rfl
    have hset : s.semaphore ≠ none := fun hnone =>
      List.not_mem_nil (hs.semaphore hnone i h hi hgoing)
    simp only [ha.fresh, Bool.false_and, Bool.false_eq_true, if_false] at ht
    cases o with
    | acquire =>
      simp only [call] at ht
      split at ht
      · exact tracked_acquired hs hi hrest ht
      · exact tracked_acquire hs hi hrest hset ht
    | release =>
      cases ht
      exact tracked_release hs hi hrest
    | semaphoreIsSet =>
      cases ht
      refine hs.goes goes_goOn hi hgoing (ha.answer hrest ⟨rfl, ?_⟩)
      exact Option.isSome_iff_ne_none.mpr hset
    | _ =>
      cases ht
      exact hs.goes goes_goOn hi hgoing (ha.answer hrest ⟨hc, trivial⟩)

/-! ## Steps of the other tasks -/

/-- The handlers stay, and none of them has to be tracked anew. -/
structure Beside (s t : AsyncListener) : Prop where
  handlers : t.handlers = s.handlers
  inFlight : t.inFlight = s.inFlight
  semaphore : t.semaphore = s.semaphore ∨ t.semaphore ≠ none
  stops : t.stops = s.stops

theorem Within.congr {tasks : List Nat} (hw : s.Within tasks) (hh : t.handlers = s.handlers) :
    t.Within tasks := by
  intro j x hj hx
  exact hw j x (hh ▸ hj) hx

theorem Awaited.congr {pc : StopPc} (hw : s.Awaited pc) (hh : t.handlers = s.handlers) :
    t.Awaited pc := by
  cases pc with
  | wait | waitCancelled | closeChannel => exact Within.congr hw hh
  | cancelConsumer | closeConnection | returned => trivial

theorem Tracked.beside (hs : Tracked s) (h : Beside s t) : Tracked t where
  attended := h.handlers ▸ hs.attended
  inFlight := h.inFlight ▸ hs.inFlight.congr h.handlers
  semaphore hnone := by
    rcases h.semaphore with hsame | hset
    · exact (hs.semaphore (hsame ▸ hnone)).congr h.handlers
    · exact absurd hnone hset
  stops pc hpc := (hs.stops pc (h.stops ▸ hpc)).congr h.handlers

theorem startStep_beside (self : Config) (s : AsyncListener) (raises : Bool) (pc : StartPc) :
    Beside s (s.startStep self raises pc).1 := by
  cases pc with
  | bind k =>
    unfold startStep
    dsimp only
    split
    · exact ⟨rfl, rfl, .inl rfl, rfl⟩
    · exact ⟨rfl, rfl, .inr nofun, rfl⟩
  | factory | channel | setQos | declareExchange | declareQueue | consume =>
    unfold startStep
    dsimp only
    split <;> exact ⟨rfl, rfl, .inl rfl, rfl⟩

/-- What `stop` does to what is tracked, when it goes on at the given place. -/
structure Passes (s : AsyncListener) (p : AsyncListener × StopPc) : Prop where
  handlers : p.1.handlers = s.handlers
  stops : p.1.stops = s.stops
  inFlight : p.1.inFlight = s.inFlight ∨ s.Within []
  semaphore : p.1.semaphore = s.semaphore ∨ s.Within []
  awaited : s.Awaited p.2

theorem stopChannelClosed_passes (s : AsyncListener) : Passes s s.stopChannelClosed := by
  unfold stopChannelClosed
  dsimp only
  split
  · exact ⟨rfl, rfl, .inl rfl, .inl rfl, trivial⟩
  · split <;> exact ⟨rfl, rfl, .inl rfl, .inl rfl, trivial⟩

theorem stopFinally_passes (h : s.Within []) : Passes s s.stopFinally := by
  have hclosed := stopChannelClosed_passes
    { s with consumerTag := none, inFlight := [], semaphore := none }
  have hcleared : Passes s ({ s with consumerTag := none, inFlight := [], semaphore := none } :
      AsyncListener).stopChannelClosed :=
    ⟨hclosed.handlers, hclosed.stops, .inr h, .inr h, hclosed.awaited.congr rfl⟩
  unfold stopFinally
  dsimp only
  split
  · exact hcleared
  · split
    · exact ⟨rfl, rfl, .inr h, .inr h, h⟩
    · exact hcleared

theorem stopCancelled_passes (self : Config) (h : s.Within s.inFlight) :
    Passes s (s.stopCancelled self) := by
  unfold stopCancelled
  split
  · next hnil => exact stopFinally_passes (hnil ▸ h)
  · exact ⟨rfl, rfl, .inl rfl, .inl rfl, h⟩

theorem stopBegin_passes (self : Config) (h : s.Within s.inFlight) :
    Passes s (s.stopBegin self) := by
  unfold stopBegin
  split
  · exact ⟨rfl, rfl, .inl rfl, .inl rfl, trivial⟩
  · exact stopCancelled_passes self h

/-- When the tasks of a `stop` that waits are over, all are. -/
theorem Within.nil {tasks : List Nat} (h : s.Within tasks) (hdone : s.allDone tasks = true) :
    s.Within [] := by
  intro j x hj hx
  have hall := List.all_eq_true.mp hdone j (h j x hj hx)
  rw [hj, Option.all_some, hx] at hall
  cases hall

theorem stopStep_passes {raises : Bool} {pc : StopPc} {p : AsyncListener × StopPc}
    (hs : Tracked s) (hw : s.Awaited pc)
    (hc : ∀ tasks until_, pc = .wait tasks until_ → s.allDone tasks = true)
    (hp : s.stopStep self raises pc = some p) : Passes s p := by
  cases pc with
  | cancelConsumer k tag =>
    cases hp
    split
    · exact stopCancelled_passes self hs.inFlight
    · have hcancel := stopCancelled_passes (s := s.cancelConsumer k tag) self hs.inFlight
      exact ⟨hcancel.handlers, hcancel.stops, hcancel.inFlight, hcancel.semaphore,
        hcancel.awaited.congr rfl⟩
  | wait tasks until_ =>
    have hdone := hc tasks until_ rfl
    simp only [stopStep, hdone, if_true] at hp
    cases hp
    exact stopFinally_passes (Within.nil hw hdone)
  | waitCancelled tasks =>
    simp only [stopStep] at hp
    split at hp <;> cases hp
    next hdone => exact stopFinally_passes (Within.nil hw hdone)
  | closeChannel k =>
    cases hp
    split
    · exact stopChannelClosed_passes s
    · have hshut := stopChannelClosed_passes (s.shutChannel k)
      exact ⟨hshut.handlers, hshut.stops, hshut.inFlight, hshut.semaphore, hshut.awaited.congr rfl⟩
  | closeConnection c =>
    cases hp
    exact ⟨rfl, rfl, .inl rfl, .inl rfl, trivial⟩
  | returned => cases hp

theorem Tracked.passes {p : AsyncListener × StopPc} {stops : List StopPc} (hs : Tracked s)
    (h : Passes s p) (hstops : ∀ pc ∈ stops, pc ∈ s.stops ∨ pc = p.2) :
    Tracked { p.1 with stops := stops } where
  attended x hx := hs.attended x (h.handlers ▸ hx)
  inFlight := by
    rcases h.inFlight with hsame | hnil
    · exact hsame ▸ hs.inFlight.congr h.handlers
    · intro j x hj hx
      exact absurd (hnil j x (h.handlers ▸ hj) hx) List.not_mem_nil
  semaphore hnone := by
    rcases h.semaphore with hsame | hnil
    · exact (hs.semaphore (hsame ▸ hnone)).congr h.handlers
    · exact hnil.congr h.handlers
  stops pc hpc := by
    rcases hstops pc hpc with hpc | rfl
    · exact (hs.stops pc hpc).congr h.handlers
    · exact h.awaited.congr h.handlers

theorem tracked_onMessage (hauto : self.settings.autoAck = false) (hs : Tracked s)
    (hset : s.semaphore ≠ none) (hstops : ∀ pc ∈ s.stops, pc.drains = false)
    (message : IncomingMessage) : Tracked (s.onMessage self message) where
  attended x hx := by
    rcases List.mem_append.mp hx with hx | hx
    · exact hs.attended x hx
    · rw [List.mem_singleton.mp hx]
      exact ⟨runHandler_attempts hauto, rfl⟩
  inFlight j x hj hx := by
    rcases of_getElem?_concat hj with hj | ⟨rfl, -⟩
    · exact List.mem_append_left _ (hs.inFlight j x hj hx)
    · exact List.mem_append_right _ (List.mem_singleton.mpr rfl)
  semaphore hnone := absurd hnone hset
  stops pc hpc := by
    have hdrains := hstops pc hpc
    cases pc with
    | wait | waitCancelled | closeChannel => cases hdrains
    | cancelConsumer | closeConnection | returned => trivial

theorem tracked_step {a : Action} (hauto : self.settings.autoAck = false) (hs : Tracked s)
    (hc : orderly s a = true) (ht : s.step self a = some t) : Tracked t := by
  obtain ⟨htimely, hcontained⟩ := Bool.and_eq_true_iff.mp hc
  cases a with
  | callStart => cases ht; exact hs.beside ⟨rfl, rfl, .inl rfl, rfl⟩
  | start i raises =>
    obtain ⟨pc, p, -, rfl, rfl⟩ := start_cases ht
    have hstart := startStep_beside self s raises pc
    exact hs.beside ⟨hstart.handlers, hstart.inFlight, hstart.semaphore, hstart.stops⟩
  | callStop =>
    cases ht
    have hbegin := stopBegin_passes self hs.inFlight
    refine hs.passes hbegin ?_
    rw [hbegin.stops]
    intro pc hpc
    exact (List.mem_append.mp hpc).imp_right List.mem_singleton.mp
  | stop i raises =>
    obtain ⟨pc, p, hi, hstep, rfl⟩ := stop_cases ht
    have hpasses := stopStep_passes hs (hs.stops pc (List.mem_of_getElem? hi)) (by
      rintro tasks until_ rfl
      simpa [timely, hi] using htimely) hstep
    refine hs.passes hpasses ?_
    rw [hpasses.stops]
    exact fun pc hpc => List.mem_or_eq_of_mem_set hpc
  | deliver message =>
    simp only [step] at ht
    split at ht <;> cases ht
    obtain ⟨hset, hstops⟩ := Bool.and_eq_true_iff.mp htimely
    refine tracked_onMessage hauto hs (Option.isSome_iff_ne_none.mp hset) ?_ message
    simpa using hstops
  | handle i answers => exact tracked_handle hs hcontained ht
  | tick dt =>
    simp only [step] at ht
    split at ht <;> cases ht
    exact hs.beside ⟨rfl, rfl, .inl rfl, rfl⟩
  | lose | loseChannel => cases ht; exact hs.beside ⟨rfl, rfl, .inl rfl, rfl⟩

theorem tracked_of_reach (hauto : self.settings.autoAck = false)
    (h : (machine self).Reach (fun s a => orderly s a = true) s) : Tracked s := by
  refine h.invariant ⟨nofun, nofun, fun _ => nofun, nofun⟩ ?_
  exact fun _ _ _ _ hc hs ht => tracked_step hauto hs hc ht

/-- **`stop` settles before it closes**: nobody has cancelled a handler, and when a
`stop` is about to close the channel, every handler is over and has tried to ack or
nack its message. -/
theorem settles_before_close (hauto : self.settings.autoAck = false)
    (hs : (machine self).Reach (fun s a => orderly s a = true) s) :
    (∀ h ∈ s.handlers, h.cancelled = false) ∧
      ∀ k, .closeChannel k ∈ s.stops → ∀ h ∈ s.handlers,
        h.rest.done = true ∧ attempted h.message h.past = true := by
  have htracked := tracked_of_reach hauto hs
  refine ⟨fun h hh => (htracked.attended h hh).fresh, fun k hk h hh => ?_⟩
  have hdone : h.rest.done = true := by
    obtain ⟨j, hj⟩ := List.mem_iff_getElem?.mp hh
    by_contra hgoing
    exact List.not_mem_nil (htracked.stops _ hk j h hj (by simpa using hgoing))
  exact ⟨hdone, (htracked.attended h hh).attempted hdone⟩

/-- One handler at a time, with acks. -/
def acking : Config := { oneByOne with settings := ⟨[], false⟩ }

/-- One handler is inside the callback and another waits for the semaphore when
`stop` is called; it is about to close the channel. -/
def drainingRun : List Action :=
  startAll 0 ++ [.deliver ⟨0, 1, none, none, [104]⟩, .deliver ⟨0, 2, none, none, [105]⟩] ++
    calls 0 3 ++ calls 1 2 ++ [.callStop, .stop 0 false] ++ calls 0 3 ++ calls 1 5 ++
    [.stop 0 false]

def drained : AsyncListener := ((machine acking).runIn orderly initial drainingRun).getD initial

theorem settles_before_close_drained :
    .closeChannel 0 ∈ drained.stops ∧ drained.handlers.length = 2 ∧
      ∀ h ∈ drained.handlers, h.rest.done = true ∧ attempted h.message h.past = true :=
  have hmem : .closeChannel 0 ∈ drained.stops := by decide +kernel
  ⟨hmem, by decide +kernel, (settles_before_close rfl
    (Machine.path_of_isSome (by decide +kernel) initial)).2 0 hmem⟩

/-- `queue.cancel` returns normally. -/
def cancels (s : AsyncListener) : Action → Bool
  | .stop i raises => match s.stops[i]? with
    | some (.cancelConsumer k _) => !raises && s.channelOpen k
    | _ => true
  | _ => true

/-- The callback of the only delivery raises `asyncio.CancelledError`, say. -/
def escapingRun : List Action :=
  startAll 0 ++ [.deliver ⟨0, 1, none, none, [104]⟩] ++
    List.replicate 4 (.handle 0 (answering (.error .baseException) (.ok ()) (.ok ()))) ++
    [.callStop, .stop 0 false]

def escaped : AsyncListener :=
  ((machine acking).runIn (fun s a => timely s a && cancels s a) initial escapingRun).getD initial

/-- A handler whose callback raises past `except Exception` has neither acked nor
nacked when `stop` closes the channel. -/
theorem closes_unsettled : ∃ s,
    (machine acking).Reach (fun s a => (timely s a && cancels s a) = true) s ∧
      .closeChannel 0 ∈ s.stops ∧ ∃ h ∈ s.handlers, attempted h.message h.past = false := by
  refine ⟨escaped, Machine.path_of_isSome (by decide +kernel) initial, ?_, ?_⟩
  all_goals decide +kernel

end AsyncListener

end MqAdapters
