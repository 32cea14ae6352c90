import MqAdapters.AsyncSender.Confirms
import MqAdapters.AsyncSender.Republish

/-!
# What is published, and without batches

* `send_publishes`: a step of `send` publishes the body and the routing key of its own
  call, or nothing; `Carries` is what follows of all publishes of a run.
* `Unbatched`: without batched confirms there is nothing to flush.  So a `send` that
  has returned has waited for a publish of its own (`confirmed_of_returned`).
-/

namespace MqAdapters

open Python Theory

namespace AsyncSender

variable {self : Config} {s t u : AsyncSender} {i attempt : Nat} {draw : ℚ}

/-! ## One step of `send` -/

/-- The step publishes `p`. -/
inductive Publishes (self : Config) (s t : AsyncSender) (p : Publish) : Prop
  | batched (h : self.batched = true)
    (hconfirms : t.confirms = s.confirms.add p ∨ t.confirms = (s.confirms.add p).hand)
  | alone (h : self.batched = false) (hconfirms : t.confirms = s.confirms.alone p)

theorem Publishes.items {p : Publish} (h : Publishes self s t p) :
    t.confirms.items = s.confirms.items ++ [⟨p, .pending⟩] := by
  obtain ⟨-, hc | hc⟩ | ⟨-, hc⟩ := h
  all_goals rw [hc]; rfl

/-- The call as it is published on the exchange. -/
def SendCall.publish (self : Config) (i exchange : Nat) (call : SendCall) : Publish :=
  ⟨i, exchange, call.body, self.routingKeyFor call.routingKey⟩

/-- The step publishes the call, or nothing. -/
def MayPublish (self : Config) (s t : AsyncSender) (i : Nat) (call : SendCall) : Prop :=
  t.confirms = s.confirms ∨ ∃ exchange, Publishes self s t (call.publish self i exchange)

theorem sendFailed_confirms : (s.sendFailed self i attempt draw).confirms = s.confirms := by
  unfold sendFailed
  split <;> rfl

theorem publish_mayPublish (call : SendCall) :
    MayPublish self s (s.publish self i call attempt draw) i call := by
  unfold publish
  split
  · exact .inl sendFailed_confirms
  · next exchange hexchange =>
    dsimp only
    split
    · next hbatched =>
      split
      · exact .inr ⟨exchange, .batched hbatched (.inr rfl)⟩
      · exact .inr ⟨exchange, .batched hbatched (.inl rfl)⟩
    · next hbatched => exact .inr ⟨exchange, .alone (by simpa using hbatched) rfl⟩

theorem MayPublish.of_confirms {call : SendCall} (hc : u.confirms = s.confirms)
    (h : MayPublish self u t i call) : MayPublish self s t i call := by
  rcases h with h | ⟨exchange, h⟩
  · exact .inl (h.trans hc)
  · refine .inr ⟨exchange, ?_⟩
    cases h with
    | batched hb h => exact .batched hb (hc ▸ h)
    | alone hb h => exact .alone hb (hc ▸ h)

theorem sendStarting_mayPublish (call : SendCall) (starting : Starting) :
    MayPublish self s (s.sendStarting self i call attempt draw starting) i call := by
  cases starting with
  | going pc => exact .inl rfl
  | returned => exact publish_mayPublish call
  | raised => exact .inl sendFailed_confirms

theorem doPublish_mayPublish (call : SendCall) :
    MayPublish self s (s.doPublish self i call attempt draw) i call := by
  unfold doPublish
  split
  · exact publish_mayPublish call
  · exact .of_confirms (startBegin_alongside s).confirms (sendStarting_mayPublish call _)

/-- **A step of `send` publishes its own call, or nothing.** -/
theorem send_publishes {raises : Bool} (h : s.send self i raises draw = some t) :
    ∃ call, s.sends[i]? = some call ∧ MayPublish self s t i call := by
  obtain ⟨call, hcall, h⟩ := Option.bind_eq_some_iff.mp h
  refine ⟨call, hcall, ?_⟩
  split at h
  · cases h
  · cases hpc : call.pc <;> simp only [hpc] at h
    case begin =>
      cases h
      exact doPublish_mayPublish call
    case starting attempt pc =>
      obtain ⟨p, hp, rfl⟩ := Option.map_eq_some_iff.mp h
      exact .of_confirms (startStep_alongside hp).confirms (sendStarting_mayPublish call _)
    case gather attempt b =>
      obtain ⟨v, -, rfl⟩ := Option.map_eq_some_iff.mp h
      cases v with
      | failed => exact .inl sendFailed_confirms
      | ok | cancelled => exact .inl rfl
    case confirm attempt f =>
      cases ho : s.confirms.outcome f <;> simp only [sendConfirmed, ho] at h <;> cases h
      case failed => exact .inl sendFailed_confirms
      case succeeded | cancelled => exact .inl rfl
    case sleep attempt until_ =>
      split at h <;> cases h
      exact doPublish_mayPublish call
    case returned | raised => cases h

/-! ## What becomes of the futures -/

/-- What a step does to the publish futures. -/
inductive Futures (self : Config) (s : AsyncSender) (a : Action) (t : AsyncSender) : Prop
  | same (hitems : t.confirms.items = s.confirms.items)
  | published (i : Nat) (call : SendCall) (exchange : Nat) (hcall : s.sends[i]? = some call)
    (hitems : t.confirms.items =
      s.confirms.items ++ [⟨call.publish self i exchange, .pending⟩])
  | settled (f : Nat) (ok : Bool) (ha : a = .settle f ok)
    (hconfirms : t.confirms = s.confirms.settle f ok)
  | cancelled (b : Nat) (hconfirms : t.confirms = s.confirms.cancel b)

theorem step_futures {a : Action} (h : s.step self a = some t) : Futures self s a t := by
  cases a with
  | send i raises draw =>
    obtain ⟨call, hcall, hc | ⟨exchange, hp⟩⟩ := send_publishes h
    · exact .same (by rw [hc])
    · exact .published i call exchange hcall hp.items
  | callStart =>
    cases h
    exact .same (by rw [← (startBegin_alongside s).confirms])
  | start i raises draw =>
    obtain ⟨u, starts, hal, rfl⟩ := start_cases h
    exact .same (by rw [← hal.confirms])
  | stop i raises =>
    obtain ⟨old, new, -, -, -, -, hst⟩ := stop_cases h
    cases hst with
    | flushes hold hsome hnew hc hf => exact .same (by rw [hc]; rfl)
    | closes hbegin hold hnew hpast hc hf => exact .same (by rw [hc])
    | cancels hold hnew hc hf =>
      unfold cancelFlusher at hc
      dsimp only at hc
      split at hc
      · next b _ => exact .cancelled b hc
      · exact .same (by rw [hc])
  | flush =>
    obtain ⟨-, -, -, ⟨hc, -⟩ | ⟨-, -, hc, -⟩⟩ := flush_cases h
    · exact .same (by rw [hc])
    · exact .same (by rw [hc]; rfl)
  | settle f ok =>
    cases h
    exact .settled f ok rfl rfl
  | gathered b =>
    obtain ⟨confirms, hclose, rfl⟩ := Option.map_eq_some_iff.mp h
    exact .same (Batching.items_close hclose)
  | tick dt =>
    obtain ⟨-, rfl⟩ := tick_cases h
    exact .same rfl
  | callSend | callStop | lose | loseChannel => cases h; exact .same rfl

theorem Futures.grows {a : Action} (h : Futures self s a t) : s.confirms.Grows t.confirms := by
  cases h with
  | same hitems => exact Batching.grows_of_eq hitems
  | published i call exchange _ hitems =>
    exact (Batching.grows_alone (s := s.confirms)
      (w := call.publish self i exchange)).trans (Batching.grows_of_eq hitems)
  | settled f ok _ hc => exact hc ▸ Batching.grows_settle f ok
  | cancelled b hc => exact hc ▸ Batching.grows_cancel b

/-- The future with this number was there, or its call is one of `send`. -/
theorem Futures.owner {a : Action} (h : Futures self s a t) {f : Nat} {y : Item Publish}
    (hy : t.confirms.items[f]? = some y) :
    (∃ x, s.confirms.items[f]? = some x ∧ y.owner = x.owner) ∨
      ∃ (i : Nat) (call : SendCall) (exchange : Nat), s.sends[i]? = some call ∧
        y.owner = call.publish self i exchange := by
  by_cases hlt : f < s.confirms.items.length
  · obtain ⟨z, hz, hown, -⟩ := h.grows f _ (List.getElem?_eq_getElem hlt)
    rw [hy] at hz
    cases hz
    exact .inl ⟨_, List.getElem?_eq_getElem hlt, hown⟩
  · have hnew := (List.getElem?_eq_some_iff.mp hy).1
    cases h with
    | same hitems =>
      rw [hitems] at hnew
      exact absurd hnew hlt
    | published i call exchange hcall hitems =>
      rw [hitems] at hy
      rcases of_getElem?_concat hy with hy | ⟨-, rfl⟩
      · exact absurd (List.getElem?_eq_some_iff.mp hy).1 hlt
      · exact .inr ⟨i, call, exchange, hcall, rfl⟩
    | settled g ok _ hc =>
      rw [hc, Batching.length_settle] at hnew
      exact absurd hnew hlt
    | cancelled b hc =>
      rw [hc, Batching.length_cancel] at hnew
      exact absurd hnew hlt

/-- A future succeeds when it is settled so. -/
theorem Futures.succeeded {a : Action} (h : Futures self s a t) {f : Nat}
    (hf : t.confirms.outcome f = .succeeded) :
    s.confirms.outcome f = .succeeded ∨ a = .settle f true := by
  cases h with
  | same hitems =>
    left
    rwa [Batching.succeeded_iff, hitems, ← Batching.succeeded_iff] at hf
  | published i call exchange _ hitems =>
    left
    rw [Batching.succeeded_iff, hitems] at hf
    obtain ⟨y, hy, hs⟩ := hf
    rcases of_getElem?_concat hy with hy | ⟨-, rfl⟩
    · exact Batching.succeeded_iff.mpr ⟨y, hy, hs⟩
    · cases hs
  | settled g ok ha hc =>
    rw [hc] at hf
    rcases Batching.succeeded_settle hf with hs | ⟨rfl, rfl⟩
    · exact .inl hs
    · exact .inr ha
  | cancelled b hc => exact .inl (Batching.succeeded_cancel (hc ▸ hf))

/-! ## The calls of `send` -/

/-- A call keeps its arguments. -/
theorem sends_step {a : Action} (h : s.step self a = some t) {j : Nat} {call : SendCall}
    (hj : s.sends[j]? = some call) : ∃ pc, t.sends[j]? = some { call with pc := pc } := by
  have hsame : t.sends = s.sends → ∃ pc, t.sends[j]? = some { call with pc := pc } :=
    fun hsends => ⟨call.pc, by rw [hsends, hj]⟩
  cases a with
  | send i raises draw =>
    obtain ⟨_, new, -, hsent, -⟩ := send_cases h
    rw [hsent.sends, List.getElem?_modify, hj]
    by_cases hij : i = j
    · exact ⟨new, by simp [hij]⟩
    · exact ⟨call.pc, by simp [hij]⟩
  | callSend body routingKey =>
    cases h
    exact ⟨call.pc, getElem?_concat_of_some hj⟩
  | callStart =>
    cases h
    exact hsame (startBegin_alongside s).sends
  | start i raises draw =>
    obtain ⟨u, starts, hal, rfl⟩ := start_cases h
    exact hsame hal.sends
  | stop i raises =>
    obtain ⟨old, new, -, -, hsends, -⟩ := stop_cases h
    exact hsame hsends
  | flush =>
    obtain ⟨hsends, -⟩ := flush_cases h
    exact hsame hsends
  | gathered b =>
    obtain ⟨confirms, -, rfl⟩ := Option.map_eq_some_iff.mp h
    exact hsame rfl
  | tick dt =>
    obtain ⟨-, rfl⟩ := tick_cases h
    exact hsame rfl
  | callStop | settle | lose | loseChannel => cases h; exact hsame rfl

/-- Every publish is one of a call of `send`. -/
def Carries (self : Config) (s : AsyncSender) : Prop :=
  ∀ (f : Nat) (x : Item Publish), s.confirms.items[f]? = some x →
    ∃ (i : Nat) (call : SendCall) (exchange : Nat), s.sends[i]? = some call ∧
      x.owner = call.publish self i exchange

theorem carries_step {a : Action} (hs : Carries self s) (h : s.step self a = some t) :
    Carries self t := by
  intro f y hy
  have hcall : ∃ (i : Nat) (call : SendCall) (exchange : Nat), s.sends[i]? = some call ∧
      y.owner = call.publish self i exchange := by
    rcases (step_futures h).owner hy with ⟨x, hx, hown⟩ | hnew
    · obtain ⟨i, call, exchange, hcall, hp⟩ := hs f x hx
      exact ⟨i, call, exchange, hcall, hown.trans hp⟩
    · exact hnew
  obtain ⟨i, call, exchange, hcall, hp⟩ := hcall
  obtain ⟨pc, hpc⟩ := sends_step h hcall
  exact ⟨i, _, exchange, hpc, hp⟩

theorem carries_of_reach {c : AsyncSender → Action → Prop} (h : (machine self).Reach c s) :
    Carries self s :=
  h.invariant (P := Carries self) (fun _ _ hx => by cases hx) fun _ _ _ _ _ hs ht =>
    carries_step hs ht

/-! ## Without batches -/

/-- Nothing is collected, and no batch was handed over. -/
def Unbatched (s : AsyncSender) : Prop :=
  s.confirms.collected = [] ∧ s.confirms.batches = []

theorem Unbatched.of_confirms (hs : s.Unbatched) (h : t.confirms = s.confirms) : t.Unbatched := by
  unfold Unbatched
  rw [h]
  exact hs

theorem Unbatched.result (hs : s.Unbatched) (b : Nat) : s.confirms.result b = none := by
  unfold Batching.result
  rw [hs.2]
  rfl

theorem Unbatched.open? (hs : s.Unbatched) (b : Nat) : s.confirms.open? b = none := by
  unfold Batching.open?
  rw [hs.2]
  rfl

theorem unbatched_step {a : Action} (hself : self.batched = false) (hs : s.Unbatched)
    (h : s.step self a = some t) : t.Unbatched := by
  cases a with
  | send i raises draw =>
    obtain ⟨call, -, hc | ⟨exchange, hp⟩⟩ := send_publishes h
    · exact hs.of_confirms hc
    · cases hp with
      | batched hbatched _ =>
        rw [hself] at hbatched
        cases hbatched
      | alone _ hc =>
        unfold Unbatched
        rw [hc]
        exact hs
  | callStart =>
    cases h
    exact hs.of_confirms (startBegin_alongside s).confirms
  | start i raises draw =>
    obtain ⟨u, starts, hal, rfl⟩ := start_cases h
    exact hs.of_confirms hal.confirms
  | stop i raises =>
    obtain ⟨old, new, -, -, -, -, hst⟩ := stop_cases h
    cases hst with
    | flushes hold hsome hnew hc hf => exact absurd hs.1 hsome
    | closes hbegin hold hnew hpast hc hf => exact hs.of_confirms hc
    | cancels hold hnew hc hf =>
      unfold cancelFlusher at hc
      dsimp only at hc
      split at hc
      · refine hs.of_confirms (hc.trans ?_)
        rw [Batching.cancel, hs.open?]
      · exact hs.of_confirms hc
  | flush =>
    obtain ⟨-, -, -, ⟨hc, -⟩ | ⟨hsome, -⟩⟩ := flush_cases h
    · exact hs.of_confirms hc
    · exact absurd hs.1 hsome
  | settle f ok =>
    cases h
    exact hs
  | gathered b =>
    obtain ⟨confirms, hclose, -⟩ := Option.map_eq_some_iff.mp h
    rw [Batching.close, hs.open?] at hclose
    cases hclose
  | tick dt =>
    obtain ⟨-, rfl⟩ := tick_cases h
    exact hs
  | callSend | callStop | lose | loseChannel => cases h; exact hs

/-- What waits for a batch does not go on. -/
theorem Unbatched.harmless (hs : s.Unbatched) (a : Action) : harmless s a := by
  intro b members _ hopen
  rw [hs.open?] at hopen
  cases hopen

theorem Unbatched.blameless (hs : s.Unbatched) (a : Action) : blameless self s a = true := by
  cases a with
  | send i raises draw =>
    simp only [AsyncSender.blameless]
    split
    · split
      · simp [hs.result]
      · rfl
    · rfl
  | _ => rfl

/-- **Without batches, every `send` that has returned has published with success**, and a
message is published again only after a publish of it has failed. -/
theorem unbatched_of_reach {c : AsyncSender → Action → Prop} (hself : self.batched = false)
    (h : (machine self).Reach c s) : s.Unbatched ∧ Accounted s ∧ Cautious s := by
  refine Machine.Reach.invariant
    (P := fun s : AsyncSender => s.Unbatched ∧ Accounted s ∧ Cautious s) h
    ⟨⟨rfl, rfl⟩, accounted_initial, cautious_initial⟩ ?_
  rintro s a t - - ⟨hs, ha, hc⟩ ht
  exact ⟨unbatched_step hself hs ht, accounted_step ha (hs.harmless a) ht,
    cautious_step hc (hs.blameless a) ht⟩

theorem confirmed_of_returned {c : AsyncSender → Action → Prop} (hself : self.batched = false)
    (h : (machine self).Reach c s) {call : SendCall} (hcall : s.sends[i]? = some call)
    (hpc : call.pc = .returned) : s.confirms.Confirmed (message i) := by
  obtain ⟨hs, ha, -⟩ := unbatched_of_reach hself h
  refine (ha.kept i call hcall hpc).confirmed ?_
  rintro f (hf | ⟨b, members, hb, -⟩)
  · rw [hs.1] at hf
    cases hf
  · rw [hs.open?] at hb
    cases hb

end AsyncSender

end MqAdapters
