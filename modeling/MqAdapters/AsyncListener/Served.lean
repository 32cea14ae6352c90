import MqAdapters.AsyncListener.Moves
import MqAdapters.Delivery.Served

/-!
# The async listener and its broker

Each task of the listener is a crew of one program, so the listener is a host, in front of
a queue.  `message.ack()`, `message.nack()` and the publish of a dead letter are answered
in the step that calls them; the publish is answered once the broker has confirmed it.  A
task that is cancelled before its first step is left.

* `underWay_set`: what becomes of the programs when one of them moves.
* `change_step`: a step leaves programs, takes a delivery, or answers a call.
-/

namespace MqAdapters

open Python Theory Code

def IncomingMessage.delivery (message : IncomingMessage) : Delivery :=
  ⟨message.channel, message.deliveryTag, message.properties, message.body⟩

namespace AsyncListener

/-- What is left to do for the delivery. -/
def Handler.program (h : Handler) : Delivery × Code Unit := (h.message.delivery, h.rest)

/-- The programs of the handlers that are not over. -/
def underWay (handlers : List Handler) : Multiset (Delivery × Code Unit) :=
  ((↑handlers : Multiset Handler).map Handler.program).filter fun p => p.2.done = false

/-- The programs under way. -/
def live (s : AsyncListener) : Multiset (Delivery × Code Unit) := underWay s.handlers

/-- The call that a step makes: the one that it adds to those of its handler. -/
def made (s : AsyncListener) : Action → Option (Delivery × Call)
  | .handle i answers => (s.handlers[i]?).bind fun h => (s.handle i answers).bind fun t =>
    (t.handlers[i]?).bind fun h' => (h'.past[h.past.length]?).map fun e => (h.message.delivery, e)
  | _ => none

/-- What a step says: the delivery that it takes, or the call that it makes. -/
def told (s : AsyncListener) : Action → Option (Delivery ⊕ (Delivery × Call))
  | .deliver message => some (.inl message.delivery)
  | a => (s.made a).map .inr

/-- The step takes no delivery. -/
def own : Action → Bool
  | .deliver _ => false
  | _ => true

/-- What a call does; `anyway` says whether one that raises does it. -/
def does (_ : AsyncListener) (anyway : Bool) (e : Call) : Option (Effect Publication) :=
  (effect e).bind fun (w, ok) => if ok || anyway then some w else none

/-- A task starts no other program. -/
def soloRules : Program.Rules Op Op.Ans Job where
  allowed _ := True
  guard _ o := ∀ r, started ⟨o, r⟩ = []
  spawn _ := []
  pre _ _ := True

@[simp] theorem soloRules_allowed (e : Call) : soloRules.allowed e ↔ True := Iff.rfl

@[simp] theorem soloRules_spawn (e : Call) : soloRules.spawn e = [] := rfl

@[simp] theorem soloRules_guard (past : List Call) (o : Op) :
    soloRules.guard past o ↔ ∀ r, started ⟨o, r⟩ = [] := Iff.rfl

/-- What is left of the handler starts nothing. -/
def Solo (h : Handler) : Prop := h.rest.wp soloRules (fun _ _ => True) h.past

section

variable {self : Config} {s t : AsyncListener} {i : Nat}

theorem told_of_own {a : Action} (ha : own a = true) : s.told a = (s.made a).map .inr := by
  cases a with
  | deliver message => cases ha
  | _ => rfl

/-! ## What a task starts -/

theorem handlerFailed_solo {settings : Settings} {message : IncomingMessage} {past : List Call} :
    (handlerFailed settings message).wp soloRules (fun _ _ => True) past := by
  rcases hq : settings.config.poisonQueue (retryAttemptFromHeaders message.headers) with _ | q
  all_goals
    simp +contextual [handlerFailed, publishPoison, IncomingMessage.ack, IncomingMessage.nack, hq,
      Program.wp_ite, started]

theorem runHandler_solo {settings : Settings} {message : IncomingMessage} {past : List Call} :
    (runHandler settings message).wp soloRules (fun _ _ => True) past := by
  have hfailed : ∀ {past}, (handlerFailed settings message).wp soloRules (fun _ _ => True) past :=
    handlerFailed_solo
  simp +contextual [runHandler, IncomingMessage.ack, Program.wp_ite, started, hfailed]

theorem Solo.answer {h : Handler} {o : Op} {k : o.Ans → Code Unit} (hs : Solo h)
    (hrest : h.rest = .call o k) (r : o.Ans) :
    (∀ r, started ⟨o, r⟩ = []) ∧ (k r).wp soloRules (fun _ _ => True) (h.past ++ [⟨o, r⟩]) := by
  rw [Solo, hrest] at hs
  exact ⟨hs.1, (hs.2 r trivial).2⟩

/-- A handler that moves has made a call, or is left. -/
theorem Moves.program {h h' : Handler} (hh : Moves h h') : h'.message = h.message ∧
    ((∃ o k r, h.rest = .call o k ∧ h'.rest = k r ∧ h'.past = h.past ++ [⟨o, r⟩]) ∨
      (h'.past = h.past ∧ (h'.rest = h.rest ∨ h'.rest = .raise .baseException))) := by
  cases hh with
  | answer o k r hrest => exact ⟨rfl, .inl ⟨o, k, r, hrest, rfl, rfl⟩⟩
  | acquire k g hrest => exact ⟨rfl, .inl ⟨_, k, .ok (), hrest, rfl, rfl⟩⟩
  | refuse k e permit hrest => exact ⟨rfl, .inl ⟨_, k, .error e, hrest, rfl, rfl⟩⟩
  | release k r hrest => exact ⟨rfl, .inl ⟨_, k, r, hrest, rfl, rfl⟩⟩
  | park => exact ⟨rfl, .inr ⟨rfl, .inl rfl⟩⟩
  | drop => exact ⟨rfl, .inr ⟨rfl, .inr rfl⟩⟩
  | cancel => exact ⟨rfl, .inr ⟨rfl, .inl rfl⟩⟩

theorem Solo.moves {h h' : Handler} (hs : Solo h) (hh : Moves h h') : Solo h' := by
  unfold Solo
  obtain ⟨-, ⟨o, k, r, hrest, hrest', hpast⟩ | ⟨hpast, hrest | hrest⟩⟩ := hh.program
  · rw [hrest', hpast]
    exact (hs.answer hrest r).2
  · rw [hrest, hpast]
    exact hs
  · simp [hrest]

theorem solo_of_reach {c : AsyncListener → Action → Prop} (h : (machine self).Reach c s) :
    ∀ h ∈ s.handlers, Solo h :=
  Machine.Path.invariant (P := fun s : AsyncListener => ∀ h ∈ s.handlers, Solo h) h
    (fun _ h => absurd h List.not_mem_nil) fun _ _ _ _ hs ht =>
      forall_step (fun _ _ hp hh => hp.moves hh) (fun _ => runHandler_solo) hs ht

/-! ## The programs when one moves -/

theorem underWay_append (l l' : List Handler) : underWay (l ++ l') = underWay l + underWay l' := by
  simp only [underWay, ← Multiset.coe_add, Multiset.map_add, Multiset.filter_add]

theorem underWay_singleton (h : Handler) :
    underWay [h] = if h.rest.done then 0 else {h.program} := by
  simp only [underWay, Multiset.coe_singleton, Multiset.map_singleton, Multiset.filter_singleton]
  cases hdone : h.rest.done
  all_goals simp [Handler.program, hdone]

theorem underWay_eraseIdx {l : List Handler} {h : Handler} (hi : l[i]? = some h) :
    underWay l = underWay [h] + underWay (l.eraseIdx i) := by
  rw [← underWay_append]
  unfold underWay
  rw [List.singleton_append, ← Multiset.cons_coe, coe_eraseIdx hi]

theorem underWay_set {l : List Handler} {h : Handler} (hi : l[i]? = some h) (h' : Handler) :
    underWay (l.set i h') = underWay [h'] + underWay (l.eraseIdx i) := by
  have hlt := (List.getElem?_eq_some_iff.mp hi).1
  rw [underWay_eraseIdx (List.getElem?_set_self hlt), List.eraseIdx_set_eq]

/-- A handler that goes on with the same program. -/
theorem underWay_same {l : List Handler} {h h' : Handler} (hi : l[i]? = some h)
    (hp : h'.program = h.program) : underWay (l.set i h') = underWay l := by
  rw [underWay_set hi, underWay_eraseIdx hi]
  simp only [underWay, Multiset.coe_singleton, Multiset.map_singleton, hp]

theorem cancelHandler_live (s : AsyncListener) (i : Nat) : (s.cancelHandler i).live = s.live := by
  unfold cancelHandler
  split
  · rfl
  · next h hi =>
    have hsame : underWay (s.handlers.set i { h with cancelled := true }) = underWay s.handlers :=
      underWay_same hi rfl
    dsimp only
    split
    · rfl
    · split <;> exact hsame

theorem cancelHandlers_live (tasks : List Nat) (s : AsyncListener) :
    (tasks.foldl cancelHandler s).live = s.live := by
  induction tasks generalizing s with
  | nil => rfl
  | cons i tasks ih => exact (ih _).trans (cancelHandler_live s i)

theorem stopStep_live {raises : Bool} {pc : StopPc} {p : AsyncListener × StopPc}
    (hp : s.stopStep self raises pc = some p) : p.1.live = s.live := by
  cases pc with
  | cancelConsumer queue tag =>
    cases hp
    rw [live, (stopCancelled_unchanged _).handlers]
    split <;> rfl
  | wait tasks until_ =>
    simp only [stopStep] at hp
    split at hp
    · cases hp
      rw [live, (stopFinally_unchanged s).handlers, live]
    · split at hp <;> cases hp
      exact cancelHandlers_live tasks s
  | waitCancelled tasks =>
    simp only [stopStep] at hp
    split at hp <;> cases hp
    rw [live, (stopFinally_unchanged s).handlers, live]
  | closeChannel channel =>
    cases hp
    rw [live, (stopChannelClosed_unchanged _).handlers]
    split <;> rfl
  | closeConnection conn => cases hp; rfl
  | returned => cases hp

/-! ## Every step is a change -/

theorem covers_underWay (l : List Handler) (h : Handler) :
    Covers (fun _ => True) (h.program ::ₘ underWay l) (underWay [h] + underWay l) := by
  rw [underWay_singleton]
  split
  · rw [Multiset.zero_add]
    exact .cons trivial
  · exact .of_eq (Multiset.singleton_add _ _).symm

/-- A step of a handler, with the call that it makes. -/
theorem change_handle {answers : ∀ o : Op, o.Ans} (hs : ∀ h ∈ s.handlers, Solo h)
    (ht : s.handle i answers = some t) :
    Change (fun d l => l.code self.settings d) started Path.async.job (fun _ => True) s.live t.live
      (s.told (.handle i answers)) := by
  obtain ⟨h, h', hi, hhandlers, hh⟩ := handle_moves ht
  have hlt := (List.getElem?_eq_some_iff.mp hi).1
  have hmade : s.told (.handle i answers) =
      ((h'.past[h.past.length]?).map fun e => (h.message.delivery, e)).map .inr := by
    simp [told, made, hi, ht, hhandlers, List.getElem?_set_self hlt]
  have hbefore : s.live = underWay [h] + underWay (s.handlers.eraseIdx i) := underWay_eraseIdx hi
  have hafter : t.live = underWay [h'] + underWay (s.handlers.eraseIdx i) :=
    (congrArg underWay hhandlers).trans (underWay_set hi h')
  rw [hmade, hbefore, hafter]
  obtain ⟨hmessage, ⟨o, k, r, hrest, hrest', hpast⟩ | ⟨hpast, hrest⟩⟩ := hh.program
  · have hnone : started ⟨o, r⟩ = [] := ((hs h (List.mem_of_getElem? hi)).answer hrest r).1 r
    rw [hpast, List.getElem?_concat_length]
    refine .answer _ o k r (underWay (s.handlers.eraseIdx i)) ?_ ?_
    · rw [underWay_singleton, if_neg (by simp [hrest, Program.done]), Handler.program, hrest,
        Multiset.singleton_add]
    · have hprogram : h'.program = (h.message.delivery, k r) := by
        rw [Handler.program, hmessage, hrest']
      rw [Theory.starts, hnone, ← hprogram]
      exact covers_underWay _ h'
  · rw [hpast, List.getElem?_eq_none (Nat.le_refl _)]
    refine .rest ?_
    rcases hrest with hrest | hrest
    · have hsame : h'.program = h.program := by rw [Handler.program, hmessage, hrest]; rfl
      refine .of_eq ?_
      simp only [underWay, Multiset.coe_singleton, Multiset.map_singleton, hsame]
    · -- dropped before its first step
      refine ⟨underWay [h], ?_, fun _ _ => trivial⟩
      rw [underWay_singleton h', if_pos (by rw [hrest]; rfl), Multiset.zero_add, add_comm]

/-- **Every step is a change of the programs under way.** -/
theorem change_step {a : Action} (hs : ∀ h ∈ s.handlers, Solo h)
    (ha : own a = true ∨ ∃ d : Delivery, a = .deliver d.message) (ht : s.step self a = some t) :
    Change (fun d l => l.code self.settings d) started Path.async.job (fun _ => True) s.live t.live
      (s.told a) := by
  have hrest : ∀ {t : AsyncListener}, t.live = s.live → Change
      (fun d l => l.code self.settings d) started Path.async.job (fun _ => True) s.live t.live
      none := fun h => .rest (.of_eq h.symm)
  cases a with
  | callStart | lose | loseChannel => cases ht; exact hrest rfl
  | start i raises =>
    obtain ⟨pc, p, -, rfl, rfl⟩ := start_cases ht
    exact hrest (congrArg underWay (startStep_beside self s raises pc).handlers)
  | callStop =>
    cases ht
    exact hrest (congrArg underWay (stopBegin_unchanged self s).handlers)
  | stop i raises =>
    obtain ⟨pc, p, -, hstep, rfl⟩ := stop_cases ht
    exact hrest (stopStep_live hstep)
  | deliver message =>
    obtain ⟨d, hd⟩ := ha.resolve_left (by simp [own])
    obtain rfl := Action.deliver.inj hd
    simp only [step] at ht
    split at ht <;> cases ht
    refine .arrive d ?_
    rw [show (s.onMessage self d.message).live = underWay (s.handlers ++ _) from rfl,
      underWay_append, add_comm]
    exact covers_underWay s.handlers
      ⟨d.message, [], runHandler self.settings d.message, .none, false⟩
  | handle i answers => exact change_handle hs ht
  | tick dt =>
    simp only [step] at ht
    split at ht <;> cases ht
    exact hrest rfl

variable (self) in
/-- The listener takes the deliveries of a broker. -/
def host : Serving AsyncListener Action where
  machine := machine self
  deliver d := .deliver d.message
  own := own
  told := told
  live := live
  code d l := l.code self.settings d
  spawn := started
  root := Path.async.job
  left _ := True
  delivery := Message.delivery
  key d := (d.channel, d.deliveryTag)
  effect := effect
  does := does
  consumes := consumes
  someAnswer := answering (.ok .value) (.ok ()) (.ok ())
  live_init := rfl
  change s a t hs ha ht := change_step (solo_of_reach hs) ha ht
  told_deliver s d := rfl
  told_own s a d hown htold := by
    rw [told_of_own hown] at htold
    obtain ⟨x, -, hx⟩ := Option.map_eq_some_iff.mp htold
    cases hx
  key_delivery := Message.key_delivery
  does_of_ok s a d e w anyway htold hw := by simp [does, hw]
  effect_of_does s anyway e w h := by
    obtain ⟨⟨v, ok⟩, hv, h⟩ := Option.bind_eq_some_iff.mp h
    dsimp only at h
    split at h <;> cases h
    next hok => exact ⟨ok, hv, hok⟩

theorem host_serves (self : Config) : Serves .async self.settings (host self) :=
  ⟨rfl, rfl, rfl, rfl, rfl, rfl⟩

/-- The listener and its broker. -/
abbrev served (self : Config) (window : Option Nat) :
    Machine (Listening AsyncListener) (Served.Action Action Message) :=
  (host self).served self.settings.autoAck window

end

section

variable {self : Config} {window : Option Nat} {s t : Listening AsyncListener}
  {c : Listening AsyncListener → Served.Action Action Message → Prop}

/-- **No message is lost, and none comes back without a cause.**  However the calls of
`start` and `stop`, the tasks and their cancellation and the broker interleave, a message
is ready, unsettled on an open channel, or gone for a reason; it is dispatched once more
than it went back, and it went back because its channel was closed, or because the callback
or the ack of that delivery raised. -/
theorem keeps_messages (h : (served self window).Reach c s) {n : Nat} {m : Message}
    (hm : s.broker.messages[n]? = some m) :
    (n ∈ s.broker.ready ∨
      (∃ x ∈ s.broker.unsettled, x.message = n ∧ x.channel ∉ s.broker.closed) ∨
      ∃ x fate, (x, fate) ∈ s.broker.gone ∧ x.message = n ∧
        Reason .async self.settings s (m.delivery x) fate) ∧
      s.broker.dispatched.countP (·.message == n) + s.broker.ready.count n =
        s.broker.returned.countP (·.message == n) + 1 ∧
      ∀ x ∈ s.broker.returned, x.message = n → x.channel ∈ s.broker.closed ∨
        CallbackRaised .async s (m.delivery x) ∨ AckRaised s (m.delivery x) := by
  refine ⟨place_of_message (host_serves self) h hm,
    (Host.sound_of_reach h).redelivered (List.getElem?_eq_some_iff.mp hm).1, ?_⟩
  rintro x hx rfl
  exact cause_of_return (host_serves self) h hm hx

/-- A steady run from the start. -/
def playedOut (as : List (Served.Action Action Message)) : Listening AsyncListener :=
  ((served acking (some 1)).runIn (fun _ a => a.steady) (served acking (some 1)).init as).getD
    (served acking (some 1)).init

theorem playedOut_reach {as : List (Served.Action Action Message)}
    (h : ((served acking (some 1)).runIn (fun _ a => a.steady) (served acking (some 1)).init
      as).isSome = true) :
    (served acking (some 1)).Reach (fun _ a => a.steady = true) (playedOut as) :=
  Machine.path_of_isSome h (served acking (some 1)).init

/-- A message is put into the queue, and its handler makes `n` calls; the callback ends as `r`. -/
def handles (r : Except Raised Returned) (n : Nat) : List (Served.Action Action Message) :=
  (startAll 0).map (.act · false) ++ [.put ⟨none, [104]⟩, .dispatch 0 0, .receive 0] ++
    List.replicate n (.act (.handle 0 (answering r (.ok ()) (.ok ()))) false)

/-- The callback raises, and the message is dispatched again. -/
def again : Listening AsyncListener :=
  playedOut (handles (.error .exception) 5 ++ [.process 0, .dispatch 0 0])

theorem keeps_messages_again :
    again.broker.returned.length = 1 ∧
      (0 ∈ again.broker.ready ∨
        (∃ x ∈ again.broker.unsettled, x.message = 0 ∧ x.channel ∉ again.broker.closed) ∨
        ∃ x fate, (x, fate) ∈ again.broker.gone ∧ x.message = 0 ∧
          Reason .async acking.settings again (Message.delivery ⟨none, [104]⟩ x) fate) ∧
        again.broker.dispatched.countP (·.message == 0) + again.broker.ready.count 0 =
          again.broker.returned.countP (·.message == 0) + 1 ∧
        ∀ x ∈ again.broker.returned, x.message = 0 → x.channel ∈ again.broker.closed ∨
          CallbackRaised .async again (Message.delivery ⟨none, [104]⟩ x) ∨
            AckRaised again (Message.delivery ⟨none, [104]⟩ x) :=
  ⟨by decide +kernel, keeps_messages (playedOut_reach (by decide +kernel)) (by rfl)⟩

/-- **No frame of the tasks is refused**: in every run in which a call that raises writes
nothing, a frame that the broker processes closes no channel. -/
theorem frames_accepted (h : (served self window).Reach (fun _ a => a.quiet = true) s) {ch : Nat}
    (ht : (served self window).step s (.process ch) = some t) :
    t.broker.closed = s.broker.closed :=
  Host.closed_of_served (a := .process ch) (host_serves self).settlesOnce h (by simp) ht

/-- The callback has returned, and its ack is on the wire. -/
def toAck : Listening AsyncListener := playedOut (handles (.ok .value) 4)

theorem toAck_process : ((served acking (some 1)).step toAck (.process 0)).isSome = true := by
  decide +kernel

theorem frames_accepted_toAck :
    toAck.broker.wire.length = 1 ∧
      (((served acking (some 1)).step toAck (.process 0)).get toAck_process).broker.closed =
        toAck.broker.closed :=
  ⟨by decide +kernel, frames_accepted ((playedOut_reach (by decide +kernel)).mono
    fun _ _ => Served.quiet_of_steady) (Option.some_get toAck_process).symm⟩

end

end AsyncListener

end MqAdapters
