import MqAdapters.Delivery.Isolation
import MqAdapters.Listener.Setup
import MqAdapters.Offload.Served
import MqAdapters.Theory.Window

/-!
# The prefetch window and the permits

`_offload_wrapper` acquires its permit on the I/O thread, which serves no heartbeat while
it waits.  `__init__` sets the prefetch count to `max_in_flight` if none is given, so that
the broker delivers no more than there are permits.

* `acquiredRules`: a wrapper acquires before the callback is called or submitted.
* `owes_le`: a crew calls the callback once at most, and each program that is about to
  acquire or to call it owes that call.
* `never_waits_for_callback`: so on one channel the I/O thread waits for a permit only
  while some worker has its callback behind it.
-/

namespace MqAdapters

open Python Theory Code

/-- What the broker leaves unsettled on a channel; a `prefetch_count` of 0 is no limit. -/
def ListenerSetup.PrefetchSettings.window (p : ListenerSetup.PrefetchSettings) : Option Nat :=
  if p.prefetchCount = 0 then none else some p.prefetchCount.toNat

namespace Offload

/-- `self.__prefetch_settings`, from the arguments of `__init__`. -/
def Config.prefetchSettings (self : Config) (prefetchSize prefetchCount : Int) :
    Option ListenerSetup.PrefetchSettings :=
  let (prefetchSize, prefetchCount) : Int × Int :=
    if self.listener.offload && prefetchSize ≤ -1 && prefetchCount ≤ -1 then (0, self.inFlight)
    else (prefetchSize, prefetchCount)
  if prefetchSize > -1 && prefetchCount > -1 then some ⟨prefetchSize, prefetchCount⟩ else none

/-- The window that the broker is asked for. -/
def Config.window (self : Config) (prefetchSize prefetchCount : Int) : Option Nat :=
  (self.prefetchSettings prefetchSize prefetchCount).bind ListenerSetup.PrefetchSettings.window

/-- **The default window is the number of permits.** -/
theorem window_default {self : Config} (hoffload : self.listener.offload = true) :
    self.window (-1) (-1) = some self.inFlight := by
  have hpos : self.inFlight ≠ 0 := by
    unfold Config.inFlight
    omega
  have hsettings : self.prefetchSettings (-1) (-1) = some ⟨0, self.inFlight⟩ := by
    simp [Config.prefetchSettings, hoffload]
    omega
  simp [Config.window, hsettings, ListenerSetup.PrefetchSettings.window, hpos]

/-! ## One delivery -/

def acquires : Call → Bool
  | ⟨.acquire, _⟩ => true
  | _ => false

/-- A permit was acquired, or that was tried. -/
def Acquired (past : List Call) : Prop := past.any acquires = true

@[simp] theorem acquired_nil : ¬ Acquired [] := Bool.false_ne_true

@[simp] theorem acquired_cons (e : Call) (past : List Call) :
    Acquired (e :: past) ↔ acquires e = true ∨ Acquired past := by
  simp [Acquired]

@[simp] theorem acquired_append (past past' : List Call) :
    Acquired (past ++ past') ↔ Acquired past ∨ Acquired past' := by
  simp only [Acquired, List.any_append, Bool.or_eq_true]

/-- With the executor, `acquire` comes first. -/
def acquiredRules : Program.Rules Op Op.Ans Job where
  allowed := anyAnswer
  guard past
    | .callback _ _ | .submit | .addCallbackThreadsafe _ => Acquired past
    | _ => True
  spawn := started
  pre
    | .offloading, _ => True
    | .work, past | .scheduled _, past => Acquired past
    | _, _ => False

@[simp] theorem acquiredRules_allowed (e : Call) : acquiredRules.allowed e ↔ True := Iff.rfl

@[simp] theorem acquiredRules_spawn : acquiredRules.spawn = started := rfl

/-- The cost of a call, where only those that meet `p` cost. -/
def costIf (p : Call → Bool) (e : Call) : Nat := if p e then 1 else 0

theorem sum_costIf (p : Call → Bool) (l : List Call) : (l.map (costIf p)).sum = l.countP p := by
  induction l with
  | nil => rfl
  | cons e l ih =>
    rw [List.map_cons, List.sum_cons, ih, List.countP_cons, costIf]
    omega

/-- The wrapper and the worker call the callback, once. -/
def calledFund : Job → Nat
  | .scheduled _ => 0
  | _ => 1

/-- The wrapper acquires once. -/
def acquiredFund : Job → Nat
  | .offloading | .task => 1
  | _ => 0

/-- The program is about to call the callback. -/
def owesCall : Code Unit → Nat
  | .call (.callback _ _) _ => 1
  | _ => 0

/-- The program is about to acquire. -/
def owesAcquire : Code Unit → Nat
  | .call .acquire _ => 1
  | _ => 0

/-- The program has yet to call the callback. -/
def owes (p : Code Unit) : Nat := owesCall p + owesAcquire p

section

variable {self : Settings} {d : Delivery} {past : List Call} {w : Handling}

@[simp] theorem acquiredRules_guard (o : Op) : acquiredRules.guard past o ↔ match o with
    | .callback _ _ | .submit | .addCallbackThreadsafe _ => Acquired past
    | _ => True := by
  cases o <;> rfl

theorem schedule_acquired (s : Schedule) : (s.run d.channel d.properties d.body).wp acquiredRules
    (fun _ _ => True) past := by
  cases s with
  | ack tag => simp [Schedule.run, ackOffloaded, started]
  | fail tag cfg attempt =>
    rcases hq : cfg.poisonQueue attempt with _ | q
    all_goals simp [Schedule.run, handleFail, hq, Program.wp_ite, started]

theorem internalWrapper_acquired (h : Acquired past) :
    (internalWrapper self d.channel d.method d.properties d.body).wp acquiredRules
      (fun _ _ => True) past := by
  rcases self with ⟨dest, _ | _⟩
  all_goals simp [internalWrapper, Delivery.method, started, h]

theorem onDone_acquired (h : Acquired past) (exc : Option Raised) :
    (onDone self d.channel d.method d.properties d.body exc).wp acquiredRules (fun _ _ => True)
      past := by
  have hrun : ∀ {past' Q} (s : Schedule), (∀ past r, Q past r) →
      (s.run d.channel d.properties d.body).wp acquiredRules Q past' :=
    fun s hQ => Program.wp_mono (fun _ _ _ => hQ _ _) _ _ (schedule_acquired s)
  have hpre : ∀ {past'} (s : Schedule), Acquired past' → acquiredRules.pre (.scheduled s) past' :=
    fun _ h => h
  rcases exc with _ | x
  all_goals simp [onDone, Delivery.method, Program.wp_ite, started, h, hrun, hpre]

theorem offloaded_acquired (h : Acquired past) :
    (offloaded self d.channel d.method d.properties d.body).wp acquiredRules (fun _ _ => True)
      past := by
  simp [offloaded, h, started, onDone_acquired]

theorem offloadWrapper_acquired : (offloadWrapper ⟨self, true⟩ d.channel d.method d.properties
    d.body).wp acquiredRules (fun _ _ => True) past := by
  have hpre : ∀ {past'}, Acquired past' → acquiredRules.pre .work past' := fun h => h
  simp [offloadWrapper, started, hpre, acquires, internalWrapper_acquired]

theorem code_acquired (l : Job) (past : List Call) (hl : acquiredRules.pre l past) :
    (l.code self d).wp acquiredRules (fun _ _ => True) past := by
  cases l with
  | direct => exact hl.elim
  | task => exact hl.elim
  | offloading => exact offloadWrapper_acquired
  | work => exact offloaded_acquired hl
  | scheduled s => exact schedule_acquired s

/-- What a job spends on calls that meet `p`, if only `acquire` and the callback do. -/
theorem scheduled_spends {p : Call → Bool} {fund : Job → Nat}
    (hp : ∀ e : Call, (∀ ch tag, e.op ≠ .callback ch tag) → e.op ≠ .acquire → p e = false)
    (s : Schedule) : (s.run d.channel d.properties d.body).wp (Program.free anyAnswer started)
      (fun h r => Program.spent (costIf p) started fund h ≤ 0 ∧ r ≠ .error .exception) [] := by
  have hcost : ∀ e : Call, (∀ ch tag, e.op ≠ .callback ch tag) → e.op ≠ .acquire →
      costIf p e = 0 := fun e he he' => by simp [costIf, hp e he he']
  cases s with
  | ack tag => simp [Schedule.run, ackOffloaded, started, hcost]
  | fail tag cfg attempt =>
    rcases hq : cfg.poisonQueue attempt with _ | q
    all_goals simp [Schedule.run, handleFail, hq, Program.wp_ite, started, hcost]

theorem internalWrapper_spends {p : Call → Bool} {fund : Job → Nat} {n m : Nat}
    (hp : ∀ e : Call, (∀ ch tag, e.op ≠ .callback ch tag) → e.op ≠ .acquire → p e = false)
    (hcalled : ∀ properties body r, costIf p ⟨.callback properties body, r⟩ = m)
    (hpast : Program.spent (costIf p) started fund past + m ≤ n) :
    (internalWrapper self d.channel d.method d.properties d.body).wp
      (Program.free anyAnswer started)
      (fun h _ => Program.spent (costIf p) started fund h ≤ n) past := by
  have hcost : ∀ e : Call, (∀ ch tag, e.op ≠ .callback ch tag) → e.op ≠ .acquire →
      costIf p e = 0 := fun e he he' => by simp [costIf, hp e he he']
  have hle : Program.spent (costIf p) started fund past ≤ n := by omega
  rcases self with ⟨dest, _ | _⟩
  all_goals simp [internalWrapper, Delivery.method, started, hcost, hcalled, hpast, hle]

theorem handlerFailed_spends {p : Call → Bool} {fund : Job → Nat} {n : Nat}
    (hp : ∀ e : Call, (∀ ch tag, e.op ≠ .callback ch tag) → e.op ≠ .acquire → p e = false)
    (hpast : Program.spent (costIf p) started fund past ≤ n) :
    (handlerFailed self d.message).wp (Program.free anyAnswer started)
      (fun h _ => Program.spent (costIf p) started fund h ≤ n) past := by
  have hcost : ∀ e : Call, (∀ ch tag, e.op ≠ .callback ch tag) → e.op ≠ .acquire →
      costIf p e = 0 := fun e he he' => by simp [costIf, hp e he he']
  have hcfg : self.config.poisonQueue (retryAttemptFromHeaders d.message.headers) =
      d.poisonQueue self := rfl
  rcases hq : d.poisonQueue self with _ | q
  all_goals
    simp [handlerFailed, publishPoison, IncomingMessage.ack, IncomingMessage.nack, hcfg, hq,
      Program.wp_ite, started, hcost, hpast]

theorem Minor.free {p : Call → Bool} {e : Call}
    (hp : ∀ e : Call, (∀ ch tag, e.op ≠ .callback ch tag) → e.op ≠ .acquire → p e = false)
    (he : Minor e.op) : costIf p e = 0 := by
  rw [costIf, hp e ?_ ?_]
  · rfl
  · intro properties body h
    rw [h] at he
    exact he
  · intro h
    rw [h] at he
    exact he

/-- What spends nothing but on `acquire` and the callback keeps to its budget. -/
theorem code_spends {p : Call → Bool} {fund : Job → Nat}
    (hp : ∀ e : Call, (∀ ch tag, e.op ≠ .callback ch tag) → e.op ≠ .acquire → p e = false)
    (hfree : ∀ s, fund (.scheduled s) = 0)
    (hcalled : ∀ properties body r, costIf p ⟨.callback properties body, r⟩ = fund .work)
    (hdirect : fund .direct = fund .work) (hroot : ∀ r, costIf p ⟨.acquire, r⟩ + fund .work ≤
      fund .offloading) (htask : fund .task = fund .offloading) (l : Job) :
    (l.code self d).wp (Program.free anyAnswer started)
      (fun h _ => Program.spent (costIf p) started fund h ≤ fund l) [] := by
  have hcost : ∀ e : Call, (∀ ch tag, e.op ≠ .callback ch tag) → e.op ≠ .acquire →
      costIf p e = 0 := fun e he he' => by simp [costIf, hp e he he']
  have hinternal : ∀ {past n}, Program.spent (costIf p) started fund past + fund .work ≤ n →
      (internalWrapper self d.channel d.method d.properties d.body).wp
        (Program.free anyAnswer started)
        (fun h _ => Program.spent (costIf p) started fund h ≤ n) past :=
    internalWrapper_spends hp hcalled
  have hacquired : ∀ r, costIf p ⟨.acquire, r⟩ ≤ fund .offloading := fun r => by
    have := hroot r
    omega
  have hfailed : ∀ {past}, Program.spent (costIf p) started fund past ≤ fund .offloading →
      (handlerFailed self d.message).wp (Program.free anyAnswer started)
        (fun h _ => Program.spent (costIf p) started fund h ≤ fund .offloading) past :=
    handlerFailed_spends hp
  cases l with
  | direct => exact Listener.wp_direct (fun _ _ _ => id) (hinternal (by simp [hdirect]))
  | offloading =>
    simp [Job.code, offloadWrapper, started, hcost, hroot, hacquired]
    refine ⟨⟨hinternal ?_, hinternal ?_⟩, hinternal ?_⟩
    all_goals simp [started, hcost, hroot]
  | task =>
    simp [Job.code, runHandler, IncomingMessage.ack, Program.wp_ite, started, hcost, hcalled, htask,
      hroot, hacquired]
    refine ⟨⟨fun _ => hfailed ?_, ⟨fun _ => hfailed ?_, hfailed ?_⟩, fun _ => hfailed ?_⟩,
      hfailed ?_⟩
    all_goals simp [started, hcost, hcalled, hroot]
  | work =>
    refine offloaded_spent (fun e he => Minor.free hp he) (fun s => ?_) ?_ ?_
    · rw [hfree]
      exact scheduled_spends hp s
    all_goals simp [hcalled, hfree]
  | scheduled s =>
    rw [hfree]
    exact Program.wp_mono (fun _ _ ht => ht.1) _ _ (scheduled_spends hp s)

theorem owesCall_le (p : Code Unit) (n : Nat)
    (h : p.Spends anyAnswer (costIf Listener.calls) started calledFund n) : owesCall p ≤ n := by
  unfold owesCall
  split
  · have := (h (.ok .value) trivial).1
    exact le_trans (Nat.le_add_right 1 _) this
  · exact Nat.zero_le n

theorem owesAcquire_le (p : Code Unit) (n : Nat)
    (h : p.Spends anyAnswer (costIf acquires) started acquiredFund n) : owesAcquire p ≤ n := by
  unfold owesAcquire
  split
  · have := (h (.ok ()) trivial).1
    exact le_trans (Nat.le_add_right 1 _) this
  · exact Nat.zero_le n

theorem owes_le_one (p : Code Unit) : owes p ≤ 1 := by
  unfold owes owesCall owesAcquire
  split
  · exact Nat.le_refl 1
  · split <;> decide

/-- Before it acquires, a wrapper has called and started nothing. -/
theorem solo_of_acquire (hw : (deliveryCrew .offload self d).Reach (answers anyAnswer) w)
    (hnone : w.trace.countP acquires = 0) :
    w.trace.countP Listener.calls = 0 ∧ ∃ t, w.tasks = [t] := by
  have hkept : Kept acquiredRules (fun _ _ _ => True) Path.offload.job w :=
    crew_kept code_acquired (show acquiredRules.pre .offloading [] from trivial) hw
  have hguard : ∀ e ∈ w.trace, ∃ past, ¬ Acquired past ∧ acquiredRules.guard past e.op := by
    intro e he
    obtain ⟨l, l', hl⟩ := List.append_of_mem he
    obtain ⟨past, hsub, hguard⟩ := hkept.guarded l e l' hl
    refine ⟨past, fun hacquired => ?_, hguard⟩
    obtain ⟨e', he', hacquires⟩ := List.any_eq_true.mp hacquired
    have hmem : e' ∈ w.trace := hl ▸ List.mem_append_left _ (hsub.subset he')
    exact List.countP_eq_zero.mp hnone e' hmem hacquires
  refine ⟨List.countP_eq_zero.mpr fun e he hcalls => ?_, ?_⟩
  · obtain ⟨past, hnot, hguard⟩ := hguard e he
    obtain ⟨o, r⟩ := e
    cases o
    case callback => exact hnot hguard
    all_goals cases hcalls
  · have hstarts : ∀ e ∈ w.trace, started e = [] := by
      intro e he
      obtain ⟨past, hnot, hguard⟩ := hguard e he
      obtain ⟨o, r⟩ := e
      cases o
      case submit | addCallbackThreadsafe => exact absurd hguard hnot
      all_goals rfl
    obtain ⟨t, ht, -⟩ := crew_solo hw hstarts
    exact ⟨t, ht⟩

/-- **The callback is called once at most**, and what is about to call it, or to acquire
for it, owes that call. -/
theorem owes_le (hw : (deliveryCrew .offload self d).Reach (answers anyAnswer) w) :
    w.trace.countP Listener.calls + (w.tasks.map fun t => owes t.rest).sum ≤ 1 := by
  have hcalls : ∀ e : Call, (∀ ch tag, e.op ≠ .callback ch tag) → e.op ≠ .acquire →
      Listener.calls e = false := by
    rintro ⟨o, r⟩ he -
    cases o
    case callback properties body => exact absurd rfl (he properties body)
    all_goals rfl
  have hacquires : ∀ e : Call, (∀ ch tag, e.op ≠ .callback ch tag) → e.op ≠ .acquire →
      acquires e = false := by
    rintro ⟨o, r⟩ - he
    cases o
    case acquire => exact absurd rfl he
    all_goals rfl
  have hcalled := crew_owes calledFund exists_anyAnswer (code_spends hcalls (fun _ => rfl)
    (fun _ _ _ => rfl) rfl (fun _ => Nat.le_refl 1) rfl) owesCall_le hw
  have hacquired := crew_owes acquiredFund exists_anyAnswer (code_spends hacquires (fun _ => rfl)
    (fun _ _ _ => rfl) rfl (fun _ => Nat.le_refl 1) rfl) owesAcquire_le hw
  rw [sum_costIf] at hcalled hacquired
  have hfund : calledFund Path.offload.job = 1 := rfl
  have hfund' : acquiredFund Path.offload.job = 1 := rfl
  have hsum : (w.tasks.map fun t => owes t.rest).sum = (w.tasks.map fun t => owesCall t.rest).sum +
      (w.tasks.map fun t => owesAcquire t.rest).sum := List.sum_map_add
  by_cases hnone : (w.tasks.map fun t => owesAcquire t.rest).sum = 0
  · omega
  · obtain ⟨hzero, t, ht⟩ := solo_of_acquire hw (by omega)
    rw [hzero, ht]
    simpa using owes_le_one t.rest

/-- An ack or a nack is asked for after the callback was called. -/
theorem called_of_settles (hw : (deliveryCrew .offload self d).Reach (answers anyAnswer) w)
    {past rest : List Call} {e : Call} (htrace : w.trace = past ++ e :: rest) {ch tag : Nat}
    (ha : asks e.op = some (.ack ch tag) ∨ ∃ requeue, asks e.op = some (.nack ch tag requeue)) :
    ch = d.channel ∧ tag = d.deliveryTag ∧ past.any Listener.calls = true := by
  have hfinish : ∀ {past : List Call} {e : Call} {r : Except Raised Unit}, e ∈ past →
      finish .offload e = some r → past.any Listener.calls = true := by
    intro past e r he hf
    refine List.any_eq_true.mpr ⟨e, he, ?_⟩
    obtain ⟨o, r⟩ := e
    cases o
    case callback => rfl
    all_goals cases hf
  have hack : ∀ {past rest : List Call} {e : Call} {ch tag : Nat}, w.trace = past ++ e :: rest →
      asks e.op = some (.ack ch tag) →
      ch = d.channel ∧ tag = d.deliveryTag ∧ past.any Listener.calls = true := by
    intro past rest e ch tag htrace ha
    obtain ⟨hch, htag, ⟨e, he, hf⟩ | ⟨⟨e, he, x, hf⟩, -⟩⟩ := lawful_of_trace hw htrace ha
    all_goals exact ⟨hch, htag, hfinish he hf⟩
  obtain ha | ⟨requeue, ha⟩ := ha
  · exact hack htrace ha
  · obtain ⟨hch, htag, ⟨e, he, x, hf⟩ | ⟨-, e', he', hbroker⟩⟩ := lawful_of_trace hw htrace ha
    · exact ⟨hch, htag, hfinish he hf⟩
    · -- the ack that raised came after the callback
      obtain ⟨l, l', rfl⟩ := List.append_of_mem he'
      have hasks : asks e'.op = some (.ack ch tag) := by
        obtain ⟨o, r⟩ := e'
        cases o <;> cases hbroker
        rfl
      have htrace' : w.trace = l ++ e' :: (l' ++ e :: rest) := by rw [htrace]; simp
      obtain ⟨-, -, hany⟩ := hack htrace' hasks
      exact ⟨hch, htag, by rw [List.any_append, hany, Bool.true_or]⟩

end

/-! ## The listener -/

theorem path_offload {self : Config} (hoffload : self.listener.offload = true) :
    self.path = .offload := if_pos hoffload

theorem host_owes {self : Config} (hoffload : self.listener.offload = true) :
    (host self).Owes Listener.calls owes where
  once d w hw := owes_le (path_offload hoffload ▸ (host_serves self).reach hw)
  first d w hw past e rest htrace ch f ok tag heffect htag := by
    have hasks : asks e.op = some (.ack ch tag) ∨
        ∃ requeue, asks e.op = some (.nack ch tag requeue) := by
      cases f with
      | ack tag' =>
        obtain ⟨r, rfl, -⟩ := eq_basicAck heffect
        exact .inl (by rw [← Option.some.inj htag]; rfl)
      | nack tag' requeue =>
        obtain ⟨r, rfl, -⟩ := eq_basicNack heffect
        exact .inr ⟨requeue, by rw [← Option.some.inj htag]; rfl⟩
      | publish y => cases htag
    obtain ⟨rfl, rfl, hany⟩ :=
      called_of_settles (path_offload hoffload ▸ (host_serves self).reach hw) htrace hasks
    exact ⟨rfl, hany⟩

section

variable {self : Config} {s t : Offload} {w : Task}

/-- A worker that has made no call is about to call the callback. -/
def Fresh (s : Offload) : Prop := ∀ w ∈ s.workers, w.past = [] → owes w.rest = 1

theorem fresh_spawned (hs : s.Fresh) {d : Delivery} {e : Call}
    (hworkers : t.workers = s.workers ++ spawned self d e) : t.Fresh := by
  intro w hw hpast
  rcases List.mem_append.mp (hworkers ▸ hw) with hw | hw
  · exact hs w hw hpast
  · rw [spawned_cases hw]
    rfl

theorem fresh_step {a : Action} (hs : s.Fresh) (ht : s.step self a = some t) : t.Fresh := by
  have hc := step_cases ht
  cases a with
  | loop a =>
    obtain ⟨loop, shut, -, rfl, -⟩ := hc
    exact hs
  | deliver d =>
    obtain ⟨-, -, rfl⟩ := hc
    exact hs
  | runScheduled j =>
    obtain ⟨f, -, -, rfl⟩ := hc
    exact hs
  | runRequest raises =>
    obtain ⟨-, rfl⟩ := hc
    exact hs
  | runTask answers =>
    obtain ⟨task, o, k, p, -, -, hcall, rfl⟩ := runTask_cases hc
    exact fresh_spawned hs ((goOn_rest p.1 (task.answer o k p.2)).1.trans (call_changes hcall).2.1)
  | work i answers =>
    obtain ⟨w, o, k, hi, -, rfl | ⟨p, hcall, rfl⟩⟩ := work_cases hc
    · intro x hx hpast
      rcases List.mem_or_eq_of_mem_set hx with hx | rfl
      · exact hs x hx hpast
      · exact hs w (List.mem_of_getElem? hi) hpast
    · intro x hx hpast
      rcases List.mem_or_eq_of_mem_set hx with hx | rfl
      · exact fresh_spawned hs (call_changes hcall).2.1 x hx hpast
      · exact absurd hpast (by simp [Task.answer])
  | leave =>
    obtain ⟨loop, exit, -, rfl⟩ := hc
    exact hs

theorem fresh_of_reach {c : Offload → Action → Prop} (h : (machine self).Reach c s) : s.Fresh :=
  Machine.Path.invariant h (fun _ h => absurd h List.not_mem_nil) fun _ _ _ _ hs ht =>
    fresh_step hs ht

/-- The I/O thread waits in `acquire`. -/
def Waits (s : Offload) (task : Task) : Prop :=
  s.task = some task ∧ s.permits = 0 ∧ owesAcquire task.rest = 1

theorem acquire_of_owes {task : Task} (h : owesAcquire task.rest = 1) :
    ∃ k, task.rest = .call .acquire k := by
  unfold owesAcquire at h
  split at h
  · next k heq => exact ⟨k, heq⟩
  · cases h

/-- While it waits, each permit is with a worker. -/
theorem Waits.workers {task : Task} (hw : s.Waits task) (hs : Conserved self s) :
    s.workers.countP (fun w => !w.rest.done) = self.inFlight := by
  obtain ⟨htask, hnone, hacquire⟩ := hw
  obtain ⟨k, hrest⟩ := acquire_of_owes hacquire
  have hwp := hs.task task htask
  rw [hrest] at hwp
  have hfree : holding task.past = false := hwp.1
  have hpermits := hs.permits
  simp only [held, holds, htask, Option.any_some, hfree, hnone] at hpermits
  simpa using hpermits

theorem countP_le_sum {l : List Task} {p : Task → Bool} {f : Task → Nat}
    (h : ∀ w ∈ l, p w = true → 1 ≤ f w) : l.countP p ≤ (l.map f).sum := by
  induction l with
  | nil => exact Nat.le_refl 0
  | cons w l ih =>
    have hih := ih fun x hx => h x (List.mem_cons_of_mem _ hx)
    rw [List.countP_cons, List.map_cons, List.sum_cons]
    split
    · next hp =>
      have := h w List.mem_cons_self hp
      omega
    · omega

/-- What is owed on the channel of the waiting delivery, if no callback has ended. -/
theorem Waits.owed {task : Task} (hw : s.Waits task) (hs : Conserved self s) (hfresh : s.Fresh)
    (hsame : ∀ w ∈ s.workers, w.rest.done = false → w.delivery.channel = task.delivery.channel)
    (hnone : ∀ w ∈ s.workers, w.running = false) :
    self.inFlight + 1 ≤ (host self).owed owes task.delivery.channel s.live := by
  have hone :
      (host self).owed owes task.delivery.channel (↑(s.task.toList.map Task.program)) = 1 := by
    obtain ⟨k, hrest⟩ := acquire_of_owes hw.2.2
    simp [Host.owed, hw.1, Task.program, host, hrest, owes, owesCall, owesAcquire]
  have hworkers : self.inFlight ≤
      (host self).owed owes task.delivery.channel (↑(s.workers.map Task.program)) := by
    rw [← hw.workers hs]
    simp only [Host.owed, Multiset.map_coe, List.map_map, Multiset.sum_coe]
    refine countP_le_sum fun w hmem hdone => ?_
    have hundone : w.rest.done = false := by simpa using hdone
    have hpast : w.past = [] := by
      have := hnone w hmem
      simpa [Task.running, hundone] using this
    have hch : ((host self).key w.program.1).1 = task.delivery.channel := hsame w hmem hundone
    simp only [Function.comp_apply, if_pos hch]
    exact (hfresh w hmem hpast).ge
  rw [live, Host.owed_add, Host.owed_add, hone]
  omega

end

section

variable {self : Config} {s : Listening Offload} {n : Nat} {prefetchSize prefetchCount : Int}
  {c : Listening Offload → Served.Action Action Message → Prop} {task : Task}

/-- **The I/O thread does not wait for a user callback.**  With no larger window than there
are permits, as is the default (`window_default`), and all deliveries under way on one
channel: when the I/O thread waits for a permit, a worker has its callback behind it and
can go on. -/
theorem never_waits_for_callback (hauto : self.listener.autoAck = false)
    (hoffload : self.listener.offload = true)
    (hwindow : self.window prefetchSize prefetchCount = some n) (hn : n ≤ self.inFlight)
    (h : (served self (self.window prefetchSize prefetchCount)).Reach c s)
    (hwaits : s.host.Waits task) (hsame : ∀ w ∈ s.host.workers, w.rest.done = false →
      w.delivery.channel = task.delivery.channel) :
    ∃ (i : Nat) (w : Task), s.host.workers[i]? = some w ∧ w.past ≠ [] ∧ w.rest.done = false ∧
      ∀ answers, ∃ t, s.host.step self (.work i answers) = some t := by
  have hhost := Machine.Reach.of_logged (c := fun _ a => (host self).Fits a)
    (Host.host_of_reach h)
  have hconserved := conserved_of_reach hhost
  by_contra hnone
  have hidle : ∀ w ∈ s.host.workers, w.running = false := by
    intro w hw
    by_contra hrunning
    have hrunning : w.running = true := by simpa using hrunning
    obtain ⟨i, hi⟩ := List.mem_iff_getElem?.mp hw
    refine hnone ⟨i, w, hi, ?_, ?_, fun answers => running_steps hconserved hi hrunning answers⟩
    · rintro hpast
      simp [Task.running, hpast] at hrunning
    · simpa using (Bool.and_eq_true_iff.mp hrunning).2
  have howed := hwaits.owed hconserved (fresh_of_reach hhost) hsame hidle
  rw [served, hauto, hwindow] at h
  have hle := Host.owed_le (host_owes hoffload) h task.delivery.channel
  have heq : (host self).live s.host = s.host.live := rfl
  rw [heq] at hle
  omega

/-- The listener with the default prefetch takes a message and hands it to a worker. -/
def handsOver : List (Served.Action Action Message) :=
  .receive 0 :: List.replicate 5 (.act (.runTask (answering (.ok .value) (.ok ()) (.ok ()))) false)

/-- Two messages are with the workers; the first callback has returned and its ack has been
processed, before its permit is released. -/
def outrun : Listening Offload :=
  ((served poolConfig (poolConfig.window (-1) (-1))).runIn (fun _ _ => true)
    (served poolConfig (poolConfig.window (-1) (-1))).init
    (firstPump.map (.act · false) ++ List.replicate 3 (.put ⟨none, [104]⟩) ++
      [.dispatch 0 0, .dispatch 0 0] ++ handsOver ++ handsOver ++
      List.replicate 4 (.act (.work 0 (answering (.ok .value) (.ok ()) (.ok ()))) false) ++
      .act (.runScheduled 0) false ::
      List.replicate 2 (.act (.runTask (answering (.ok .value) (.ok ()) (.ok ()))) false) ++
      [.process 0, .dispatch 0 0] ++ handsOver.take 3)).getD
    (served poolConfig (poolConfig.window (-1) (-1))).init

theorem outrun_reach : (served poolConfig (poolConfig.window (-1) (-1))).Reach
    (fun _ _ => true = true) outrun :=
  Machine.path_of_isSome (by decide +kernel) (served poolConfig (poolConfig.window (-1) (-1))).init

theorem outrun_task : outrun.host.task.isSome = true := by decide +kernel

theorem never_waits_for_callback_outrun :
    outrun.host.workers.length = 2 ∧
      ∃ (i : Nat) (w : Task), outrun.host.workers[i]? = some w ∧ w.past ≠ [] ∧
        w.rest.done = false ∧
        ∀ answers, ∃ t, outrun.host.step poolConfig (.work i answers) = some t :=
  ⟨by decide +kernel, never_waits_for_callback (n := poolConfig.inFlight) rfl rfl
    (window_default rfl) (le_refl _) outrun_reach
    (show outrun.host.Waits (outrun.host.task.get outrun_task) from
      ⟨(Option.some_get outrun_task).symm, by decide +kernel, by decide +kernel⟩)
    (by decide +kernel)⟩

end

end Offload

end MqAdapters
