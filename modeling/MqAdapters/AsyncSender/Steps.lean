import MqAdapters.AsyncSender.Model

/-!
# What the tasks of the async sender do in one step

One lemma for each kind of task, which says everything that a step of it can do
to the calls and to the publish confirms: `send_cases`, `flush_cases`,
`stop_cases`, and `Alongside` for `start`, which touches neither.
-/

namespace MqAdapters

open Python Theory

namespace AsyncSender

variable {self : Config} {s t u : AsyncSender} {i attempt : Nat} {draw : ℚ}

/-! ## `start` -/

/-- The confirms and the calls stay, and at most a flusher is started. -/
structure Alongside (s t : AsyncSender) : Prop where
  confirms : t.confirms = s.confirms
  sends : t.sends = s.sends
  starts : t.starts = s.starts
  stops : t.stops = s.stops
  flusher : t.flusher = s.flusher ∨ s.flusher = none ∧ t.flusher = some .begin

theorem Alongside.refl (s : AsyncSender) : Alongside s s := ⟨rfl, rfl, rfl, rfl, .inl rfl⟩

theorem startBegin_alongside (s : AsyncSender) : Alongside s s.startBegin.1 := by
  unfold startBegin callFactory
  split <;> exact ⟨rfl, rfl, rfl, rfl, .inl rfl⟩

theorem startFailed_alongside : Alongside s (s.startFailed self attempt draw).1 := by
  unfold startFailed
  split <;> exact .refl s

theorem startFlusher_alongside (self : Config) (s : AsyncSender) :
    Alongside s (s.startFlusher self) := by
  unfold startFlusher
  split
  · refine ⟨rfl, rfl, rfl, rfl, ?_⟩
    cases hf : s.flusher
    · exact .inr ⟨rfl, rfl⟩
    · exact .inl rfl
  · exact .refl s

theorem startStep_alongside {raises : Bool} {pc : StartPc} {p : AsyncSender × Starting}
    (h : s.startStep self raises draw pc = some p) : Alongside s p.1 := by
  cases pc with
  | factory attempt =>
    cases h
    split
    · exact startFailed_alongside
    · exact ⟨rfl, rfl, rfl, rfl, .inl rfl⟩
  | channel attempt c =>
    cases h
    split
    · exact startFailed_alongside
    · exact ⟨rfl, rfl, rfl, rfl, .inl rfl⟩
  | declare attempt k =>
    cases h
    split
    · exact startFailed_alongside
    · obtain ⟨hc, hsends, hstarts, hstops, hf⟩ :=
        startFlusher_alongside self { s with exchange := some k }
      exact ⟨hc, hsends, hstarts, hstops, hf⟩
  | sleep attempt until_ =>
    simp only [startStep] at h
    split at h <;> cases h
    exact ⟨rfl, rfl, rfl, rfl, .inl rfl⟩

/-- A step of a call of `start` does not touch the others either. -/
theorem start_cases {raises : Bool} (h : s.start self i raises draw = some t) :
    ∃ u starts, Alongside s u ∧ t = { u with starts := starts } := by
  obtain ⟨starting, -, h⟩ := Option.bind_eq_some_iff.mp h
  cases starting with
  | going pc =>
    simp only at h
    split at h
    · cases h
    · obtain ⟨p, hp, rfl⟩ := Option.map_eq_some_iff.mp h
      exact ⟨p.1, _, startStep_alongside hp, rfl⟩
  | returned | raised => cases h

/-! ## `send` -/

/-- The future or the batch that `send` has waited for has ended well. -/
def Done (s : AsyncSender) : SendPc → Prop
  | .gather _ b => s.confirms.result b = some .ok
  | .confirm _ f => s.confirms.outcome f = .succeeded
  | _ => False

/-- What the step of the `i`-th `send` to a point does to the confirms: it returns
with a new future collected, or because it has waited long enough; it waits for
all that was collected, or for one future; or it leaves them alone. -/
def Enters (s : AsyncSender) (i : Nat) (old : SendPc) (t : AsyncSender) : SendPc → Prop
  | .returned => (∃ p : Publish, p.send = i ∧ t.confirms = s.confirms.add p) ∨
      Done s old ∧ t.confirms = s.confirms
  | .gather _ b => b = s.confirms.batches.length ∧
      ∃ p : Publish, p.send = i ∧ t.confirms = (s.confirms.add p).hand
  | .confirm _ f => f = s.confirms.items.length ∧
      ∃ p : Publish, p.send = i ∧ t.confirms = s.confirms.alone p
  | _ => t.confirms = s.confirms

/-- A step of the `i`-th `send` from one point to another. -/
structure Sent (s : AsyncSender) (i : Nat) (old : SendPc) (t : AsyncSender) (new : SendPc) :
    Prop where
  sends : t.sends = s.sends.modify i fun call => { call with pc := new }
  starts : t.starts = s.starts
  stops : t.stops = s.stops
  flusher : t.flusher = s.flusher ∨ s.flusher = none ∧ t.flusher = some .begin
  enters : Enters s i old t new

theorem sendFailed_sent (old : SendPc) :
    ∃ new, Sent s i old (s.sendFailed self i attempt draw) new := by
  unfold sendFailed
  split
  · exact ⟨.raised, rfl, rfl, rfl, .inl rfl, rfl⟩
  · exact ⟨.sleep _ _, rfl, rfl, rfl, .inl rfl, rfl⟩

theorem publish_sent (old : SendPc) {call : SendCall} :
    ∃ new, Sent s i old (s.publish self i call attempt draw) new := by
  unfold publish
  split
  · exact sendFailed_sent old
  · dsimp only
    split
    · split
      · exact ⟨.gather _ _, rfl, rfl, rfl, .inl rfl, rfl, _, rfl, rfl⟩
      · exact ⟨.returned, rfl, rfl, rfl, .inl rfl, .inl ⟨_, rfl, rfl⟩⟩
    · exact ⟨.confirm _ _, rfl, rfl, rfl, .inl rfl, rfl, _, rfl, rfl⟩

/-- What `start` does first does not matter to the confirms. -/
theorem Sent.alongside {old new : SendPc} (h : Alongside s u) (ht : Sent u i old t new) :
    Sent s i old t new := by
  obtain ⟨hsends, hstarts, hstops, hf, he⟩ := ht
  refine ⟨h.sends ▸ hsends, h.starts ▸ hstarts, h.stops ▸ hstops, ?_, ?_⟩
  · rcases hf with hf | ⟨hnone, hbegin⟩
    · rw [hf]; exact h.flusher
    · rcases h.flusher with hs | ⟨hs, -⟩
      · exact .inr ⟨hs ▸ hnone, hbegin⟩
      · exact .inr ⟨hs, hbegin⟩
  · have hc := h.confirms
    cases new <;> cases old <;> simpa only [Enters, Done, hc] using he

theorem sendStarting_sent (old : SendPc) {call : SendCall} {starting : Starting} :
    ∃ new, Sent s i old (s.sendStarting self i call attempt draw starting) new := by
  cases starting with
  | going pc => exact ⟨.starting _ _, rfl, rfl, rfl, .inl rfl, rfl⟩
  | returned => exact publish_sent old
  | raised => exact sendFailed_sent old

theorem doPublish_sent (old : SendPc) {call : SendCall} :
    ∃ new, Sent s i old (s.doPublish self i call attempt draw) new := by
  unfold doPublish
  split
  · exact publish_sent old
  · have hsent : ∃ new, Sent s.startBegin.1 i old
        (s.startBegin.1.sendStarting self i call attempt draw s.startBegin.2) new :=
      sendStarting_sent old
    obtain ⟨new, h⟩ := hsent
    exact ⟨new, .alongside (startBegin_alongside s) h⟩

/-- **What a step of `send` can do.** -/
theorem send_cases {raises : Bool} (h : s.send self i raises draw = some t) :
    ∃ call new, s.sends[i]? = some call ∧ Sent s i call.pc t new ∧
      ∀ a b, call.pc = .gather a b → (s.confirms.result b).isSome = true := by
  obtain ⟨call, hcall, h⟩ := Option.bind_eq_some_iff.mp h
  split at h
  · cases h
  · refine ⟨call, ?_⟩
    cases hpc : call.pc <;> simp only [hpc] at h
    case begin =>
      cases h
      obtain ⟨new, hnew⟩ := doPublish_sent .begin
      exact ⟨new, hcall, hnew, nofun⟩
    case starting attempt pc =>
      obtain ⟨p, hp, rfl⟩ := Option.map_eq_some_iff.mp h
      obtain ⟨new, hnew⟩ := sendStarting_sent (.starting attempt pc)
      exact ⟨new, hcall, .alongside (startStep_alongside hp) hnew, nofun⟩
    case gather attempt b =>
      obtain ⟨v, hv, rfl⟩ := Option.map_eq_some_iff.mp h
      have hsome : ∀ a b', SendPc.gather attempt b = .gather a b' →
          (s.confirms.result b').isSome = true := by
        rintro a b' ⟨⟩
        simp [hv]
      cases v with
      | ok => exact ⟨.returned, hcall, ⟨rfl, rfl, rfl, .inl rfl, .inr ⟨hv, rfl⟩⟩, hsome⟩
      | failed =>
        obtain ⟨new, hnew⟩ := sendFailed_sent (.gather attempt b)
        exact ⟨new, hcall, hnew, hsome⟩
      | cancelled => exact ⟨.raised, hcall, ⟨rfl, rfl, rfl, .inl rfl, rfl⟩, hsome⟩
    case confirm attempt f =>
      cases ho : s.confirms.outcome f <;> simp only [sendConfirmed, ho] at h <;> cases h
      case succeeded =>
        exact ⟨.returned, hcall, ⟨rfl, rfl, rfl, .inl rfl, .inr ⟨ho, rfl⟩⟩, nofun⟩
      case failed =>
        obtain ⟨new, hnew⟩ := sendFailed_sent (.confirm attempt f)
        exact ⟨new, hcall, hnew, nofun⟩
      case cancelled => exact ⟨.raised, hcall, ⟨rfl, rfl, rfl, .inl rfl, rfl⟩, nofun⟩
    case sleep attempt until_ =>
      split at h <;> cases h
      obtain ⟨new, hnew⟩ := doPublish_sent (.sleep attempt until_)
      exact ⟨new, hcall, hnew, nofun⟩
    case returned | raised => cases h

/-! ## The flusher -/

/-- **What a step of the flusher can do**: it hands over what was collected, or
leaves the confirms alone. -/
theorem flush_cases (h : s.flush self = some t) :
    t.sends = s.sends ∧ t.starts = s.starts ∧ t.stops = s.stops ∧
    (t.confirms = s.confirms ∧ (∀ b, t.flusher ≠ some (.gather b)) ∧
        (∀ b, s.flusher = some (.gather b) → (s.confirms.result b).isSome = true) ∨
      s.confirms.collected ≠ [] ∧ (∀ b, s.flusher ≠ some (.gather b)) ∧
        t.confirms = s.confirms.hand ∧ t.flusher = some (.gather s.confirms.batches.length)) := by
  have htest : ∀ b, (s.flusherTest self).flusher ≠ some (.gather b) := by
    intro b
    unfold flusherTest
    dsimp only
    split <;> simp
  obtain ⟨flusher, hf, h⟩ := Option.bind_eq_some_iff.mp h
  cases flusher with
  | begin =>
    cases h
    exact ⟨rfl, rfl, rfl, .inl ⟨rfl, htest, by simp [hf]⟩⟩
  | sleep until_ =>
    simp only at h
    split at h <;> cases h
    split
    · exact ⟨rfl, rfl, rfl, .inl ⟨rfl, htest, by simp [hf]⟩⟩
    · next hne => exact ⟨rfl, rfl, rfl, .inr ⟨hne, by simp [hf], rfl, rfl⟩⟩
  | gather b =>
    obtain ⟨v, hv, rfl⟩ := Option.map_eq_some_iff.mp h
    have hsome : ∀ c, s.flusher = some (.gather c) → (s.confirms.result c).isSome = true := by
      intro c hc
      rw [hf] at hc
      cases hc
      simp [hv]
    cases v with
    | cancelled => exact ⟨rfl, rfl, rfl, .inl ⟨rfl, by simp, hsome⟩⟩
    | _ => exact ⟨rfl, rfl, rfl, .inl ⟨rfl, htest, hsome⟩⟩

/-! ## `stop` -/

/-- `stop` cancels the flusher next: it has nothing to flush, or has waited for
the flush. -/
def cancels (s : AsyncSender) : StopPc → Bool
  | .begin => s.confirms.collected.isEmpty
  | .gather b => match s.confirms.result b with
    | some .ok | some .failed => true
    | _ => false
  | _ => false

/-- `stop` has cancelled the flusher, and no exception has left it since. -/
def StopPc.past : StopPc → Bool
  | .closeChannel _ | .closeConnection _ false | .returned => true
  | _ => false

/-- `stop` has not waited for anything yet, or is waiting for its flush. -/
def StopPc.flushing : StopPc → Bool
  | .begin | .gather _ => true
  | _ => false

/-- A step of `stop` from one point to another. -/
inductive Stopped (s : AsyncSender) (old : StopPc) (t : AsyncSender) (new : StopPc) : Prop
  | flushes (hold : old = .begin) (hsome : s.confirms.collected ≠ [])
    (hnew : new = .gather s.confirms.batches.length) (hconfirms : t.confirms = s.confirms.hand)
    (hflusher : t.flusher = s.flusher)
  | cancels (hold : s.cancels old = true) (hnew : new.past = true)
    (hconfirms : t.confirms = s.cancelFlusher.confirms) (hflusher : t.flusher = none)
  | closes (hbegin : old ≠ .begin)
    (hold : ∀ b, old = .gather b → (s.confirms.result b).isSome = true)
    (hnew : new.flushing = false) (hpast : new.past = true → old.past = true)
    (hconfirms : t.confirms = s.confirms) (hflusher : t.flusher = s.flusher)

theorem stopFinally_frame (failed : Bool) : ∃ new,
    (s.stopFinally i failed).stops = s.stops.set i new ∧
    new.flushing = false ∧ new.past = !failed ∧ (s.stopFinally i failed).sends = s.sends ∧
    (s.stopFinally i failed).starts = s.starts ∧
    (s.stopFinally i failed).confirms = s.confirms ∧
    (s.stopFinally i failed).flusher = s.flusher := by
  unfold stopFinally
  dsimp only
  split
  · exact ⟨_, rfl, by cases failed <;> rfl, by cases failed <;> rfl, rfl, rfl, rfl, rfl⟩
  · split
    · exact ⟨_, rfl, rfl, by cases failed <;> rfl, rfl, rfl, rfl, rfl⟩
    · exact ⟨_, rfl, by cases failed <;> rfl, by cases failed <;> rfl, rfl, rfl, rfl, rfl⟩

theorem stopFlushed_frame (i : Nat) {old : StopPc} (hold : s.cancels old = true) :
    ∃ new, (s.stopFlushed i).stops = s.stops.set i new ∧ (s.stopFlushed i).sends = s.sends ∧
    (s.stopFlushed i).starts = s.starts ∧ Stopped s old (s.stopFlushed i) new := by
  obtain ⟨new, hstops, -, hpast, hsends, hstarts, hc, hf⟩ :=
    stopFinally_frame (s := s.cancelFlusher) (i := i) false
  have hfin : ∃ new, (s.cancelFlusher.stopFinally i false).stops = s.stops.set i new ∧
      (s.cancelFlusher.stopFinally i false).sends = s.sends ∧
      (s.cancelFlusher.stopFinally i false).starts = s.starts ∧
      Stopped s old (s.cancelFlusher.stopFinally i false) new :=
    ⟨new, hstops, hsends, hstarts, .cancels hold hpast hc hf⟩
  unfold stopFlushed
  dsimp only
  split
  · exact hfin
  · split
    · exact ⟨.closeChannel _, rfl, rfl, rfl, .cancels hold rfl rfl rfl⟩
    · exact hfin

/-- **What a step of `stop` can do.** -/
theorem stop_cases {raises : Bool} (h : s.stop i raises = some t) :
    ∃ old new, s.stops[i]? = some old ∧ t.stops = s.stops.set i new ∧ t.sends = s.sends ∧
      t.starts = s.starts ∧ Stopped s old t new := by
  obtain ⟨old, hold, h⟩ := Option.bind_eq_some_iff.mp h
  refine ⟨old, ?_⟩
  cases old with
  | begin =>
    cases h
    split
    · next hnil =>
      obtain ⟨new, hstops, hsends, hstarts, hst⟩ :=
        stopFlushed_frame i (show s.cancels .begin = true by simp [cancels, hnil])
      exact ⟨new, hold, hstops, hsends, hstarts, hst⟩
    · next hne => exact ⟨.gather _, hold, rfl, rfl, rfl, .flushes rfl hne rfl rfl rfl⟩
  | gather b =>
    obtain ⟨v, hv, rfl⟩ := Option.map_eq_some_iff.mp h
    have hflushed : v ≠ .cancelled → ∃ new, (s.stopFlushed i).stops = s.stops.set i new ∧
        (s.stopFlushed i).sends = s.sends ∧ (s.stopFlushed i).starts = s.starts ∧
        Stopped s (.gather b) (s.stopFlushed i) new := by
      intro hne
      refine stopFlushed_frame i ?_
      unfold cancels
      cases v <;> simp_all
    cases v with
    | cancelled =>
      obtain ⟨new, hstops, hnew, hpast, hsends, hstarts, hc, hf⟩ :=
        stopFinally_frame (s := s) (i := i) true
      refine ⟨new, hold, hstops, hsends, hstarts, .closes nofun ?_ hnew ?_ hc hf⟩
      · rintro c ⟨⟩
        simp [hv]
      · simp [hpast]
    | ok | failed =>
      obtain ⟨new, hstops, hsends, hstarts, hst⟩ := hflushed (by simp)
      exact ⟨new, hold, hstops, hsends, hstarts, hst⟩
  | closeChannel k =>
    cases h
    split
    · obtain ⟨new, hstops, hnew, hpast, hsends, hstarts, hc, hf⟩ :=
        stopFinally_frame (s := s) (i := i) true
      exact ⟨new, hold, hstops, hsends, hstarts, .closes nofun nofun hnew (fun _ => rfl) hc hf⟩
    · obtain ⟨new, hstops, hnew, hpast, hsends, hstarts, hc, hf⟩ :=
        stopFinally_frame (s := s.shutChannel k) (i := i) false
      exact ⟨new, hold, hstops, hsends, hstarts, .closes nofun nofun hnew (fun _ => rfl) hc hf⟩
  | closeConnection c failed =>
    cases h
    split
    · exact ⟨.raised, hold, rfl, rfl, rfl, .closes nofun nofun rfl nofun rfl rfl⟩
    · cases failed with
      | true => exact ⟨.raised, hold, rfl, rfl, rfl, .closes nofun nofun rfl nofun rfl rfl⟩
      | false =>
        exact ⟨.returned, hold, rfl, rfl, rfl, .closes nofun nofun rfl (fun _ => rfl) rfl rfl⟩
  | returned | raised => cases h

/-! ## Any task -/

theorem Enters.changes {old new : SendPc} (h : Enters s i old t new) :
    s.confirms.Changes t.confirms := by
  cases new with
  | returned =>
    rcases h with ⟨p, -, hc⟩ | ⟨-, hc⟩
    · exact hc ▸ .add p
    · exact hc ▸ .same
  | gather attempt b =>
    obtain ⟨-, p, -, hc⟩ := h
    exact hc ▸ .fill p
  | confirm attempt f =>
    obtain ⟨-, p, -, hc⟩ := h
    exact hc ▸ .alone p
  | begin | starting | sleep | raised => exact (show t.confirms = s.confirms from h) ▸ .same

/-- Only the end of a gather and `stop` end a batch. -/
theorem step_changes {a : Action} (h : s.step self a = some t) :
    s.confirms.Changes t.confirms ∨
      (∃ b, a = .gathered b ∧ s.confirms.close b = some t.confirms) ∨
      ∃ j raises, a = .stop j raises := by
  cases a with
  | send i raises draw =>
    obtain ⟨call, new, -, hsent, -⟩ := send_cases h
    exact .inl hsent.enters.changes
  | callStart =>
    cases h
    exact .inl ((startBegin_alongside s).confirms ▸ .same)
  | start i raises draw =>
    obtain ⟨u, starts, hal, rfl⟩ := start_cases h
    exact .inl (hal.confirms ▸ .same)
  | stop j raises => exact .inr (.inr ⟨j, raises, rfl⟩)
  | flush =>
    obtain ⟨-, -, -, ⟨hc, -⟩ | ⟨-, -, hc, -⟩⟩ := flush_cases h
    · exact .inl (hc ▸ .same)
    · exact .inl (hc ▸ .hand)
  | settle f ok => cases h; exact .inl (.settle f ok)
  | gathered b =>
    obtain ⟨confirms, hclose, rfl⟩ := Option.map_eq_some_iff.mp h
    exact .inr (.inl ⟨b, rfl, hclose⟩)
  | tick dt =>
    obtain ⟨-, rfl⟩ := tick_cases h
    exact .inl .same
  | callSend | callStop | lose | loseChannel => cases h; exact .inl .same

/-- A call of `stop` moves only by its own steps. -/
theorem stops_kept {a : Action} {k : Nat} {pc : StopPc} (h : s.step self a = some t)
    (hk : s.stops[k]? = some pc) (hne : ∀ raises, a ≠ .stop k raises) : t.stops[k]? = some pc := by
  cases a with
  | send i raises draw =>
    obtain ⟨call, new, -, hsent, -⟩ := send_cases h
    rw [hsent.stops, hk]
  | callStart =>
    cases h
    exact (congrArg (·[k]?) (startBegin_alongside s).stops).trans hk
  | start i raises draw =>
    obtain ⟨u, starts, hal, rfl⟩ := start_cases h
    rw [hal.stops, hk]
  | callStop =>
    cases h
    exact getElem?_concat_of_some hk
  | stop j raises =>
    obtain ⟨old, new, -, hstops, -⟩ := stop_cases h
    have hjk : j ≠ k := by
      rintro rfl
      exact hne raises rfl
    rw [hstops, List.getElem?_set_ne hjk, hk]
  | flush =>
    obtain ⟨-, -, hstops, -⟩ := flush_cases h
    rw [hstops, hk]
  | gathered b =>
    obtain ⟨confirms, -, rfl⟩ := Option.map_eq_some_iff.mp h
    exact hk
  | tick dt =>
    obtain ⟨-, rfl⟩ := tick_cases h
    exact hk
  | callSend | settle | lose | loseChannel => cases h; exact hk

end AsyncSender

end MqAdapters
