import MqAdapters.AsyncSender.Confirms
import MqAdapters.AsyncSender.Links

/-!
# Messages that are published again

The gather of a full batch is awaited inside an attempt of one `send`.  When it
fails, that `send` publishes its own message again, whoever owns the future that
failed; without batches it waits for its own future only.

* `blameless`: no `send` tries again for the failure of others alone.
* `Cautious`: a `send` that may still publish has published nothing yet, or
  something that failed.
* `republished_after_failure`: in blameless runs a message is published again
  only after one of its publishes has failed.
-/

namespace MqAdapters

open Python Theory

namespace AsyncSender

variable {self : Config} {s t : AsyncSender} {i : Nat} {raises : Bool} {draw : ℚ}

/-- A publish of the message of the `i`-th `send` has failed. -/
def ownFailed (s : AsyncSender) (i : Nat) : Bool :=
  s.confirms.items.any fun x => x.owner.send == i && x.outcome == .failed

/-- A `send` whose gather has failed tries again only if a publish of its own
message has failed. -/
def blameless (self : Config) (s : AsyncSender) : Action → Bool
  | .send i _ draw => match s.sends[i]? with
    | some call => match call.pc with
      | .gather attempt b => s.ownFailed i || s.confirms.result b != some .failed ||
          (s.retryAt self attempt draw).isNone
      | _ => true
    | none => true
  | _ => true

theorem ownFailed_iff : s.ownFailed i = true ↔
    ∃ f, s.confirms.Owned f (message i) ∧ s.confirms.outcome f = .failed := by
  unfold ownFailed message
  simp only [List.any_eq_true, Bool.and_eq_true, beq_iff_eq]
  constructor
  · rintro ⟨x, hx, hown, hf⟩
    obtain ⟨f, hf'⟩ := List.mem_iff_getElem?.mp hx
    exact ⟨f, ⟨x, hf', hown⟩, by simp [Batching.outcome, hf', hf]⟩
  · rintro ⟨f, ⟨x, hx, hown⟩, hf⟩
    exact ⟨x, List.mem_of_getElem? hx, hown, by simpa [Batching.outcome, hx] using hf⟩

/-! ## What a step of `send` publishes -/

/-- `send` is before its `exchange.publish`, in some attempt. -/
def SendPc.publishing : SendPc → Bool
  | .begin | .starting _ _ | .sleep _ _ => true
  | _ => false

/-- A step of `send` publishes its message and goes on to wait or return, or
publishes nothing. -/
theorem Enters.publishes {old new : SendPc} (h : Enters s i old t new)
    (hold : old.publishing = true) :
    t.confirms.items = s.confirms.items ∧ (∀ n f, new ≠ .confirm n f) ∨
    new.publishing = false ∧ (∀ n f, new = .confirm n f → f = s.confirms.items.length) ∧
      ∃ p : Publish, p.send = i ∧ t.confirms.items = (s.confirms.alone p).items := by
  cases new with
  | returned =>
    rcases h with ⟨p, hp, hc⟩ | ⟨hdone, -⟩
    · exact .inr ⟨rfl, nofun, p, hp, by rw [hc]; rfl⟩
    · cases old <;> first | exact absurd hdone id | cases hold
  | gather n b =>
    obtain ⟨-, p, hp, hc⟩ := h
    exact .inr ⟨rfl, nofun, p, hp, by rw [hc]; rfl⟩
  | confirm n f =>
    obtain ⟨hf, p, hp, hc⟩ := h
    refine .inr ⟨rfl, ?_, p, hp, by rw [hc]⟩
    rintro _ _ ⟨⟩
    exact hf
  | begin | starting | sleep | raised =>
    exact .inl ⟨by rw [show t.confirms = s.confirms from h], nofun⟩

/-- A `send` that waits for futures publishes nothing when it goes on, and sleeps
only if its attempt has raised. -/
theorem send_resumes {call : SendCall} (hcall : s.sends[i]? = some call)
    (hpc : call.pc.publishing = false) (h : s.send self i raises draw = some t) :
    t.confirms = s.confirms ∧ ∃ new : SendPc,
      t.sends = s.sends.modify i (fun call => { call with pc := new }) ∧
      (∀ n f, new ≠ .confirm n f) ∧
      (new.publishing = true → s.attemptRaises self raises draw call.pc = true ∧
        (s.retryAt self call.pc.attempt draw).isSome = true) := by
  simp only [send, hcall, Option.bind_some] at h
  have hfailed : ∀ n, t = s.sendFailed self i n draw →
      t.confirms = s.confirms ∧ ∃ new : SendPc,
        t.sends = s.sends.modify i (fun call => { call with pc := new }) ∧
        (∀ n f, new ≠ .confirm n f) ∧
        (new.publishing = true → (s.retryAt self n draw).isSome = true) := by
    rintro n rfl
    unfold sendFailed
    split
    · exact ⟨rfl, .raised, rfl, by simp, by simp [SendPc.publishing]⟩
    · next hr => exact ⟨rfl, .sleep _ _, rfl, by simp, fun _ => by simp [hr]⟩
  split at h
  · cases h
  · cases hc : call.pc <;> simp only [hc] at h hpc
    case begin | starting | sleep => cases hpc
    case gather n b =>
      obtain ⟨v, hv, rfl⟩ := Option.map_eq_some_iff.mp h
      cases v with
      | ok => exact ⟨rfl, .returned, rfl, by simp, by simp [SendPc.publishing]⟩
      | failed =>
        obtain ⟨hconf, new, hsends, hne, hretry⟩ := hfailed n rfl
        exact ⟨hconf, new, hsends, hne, fun hnew => ⟨by simp [attemptRaises, hv], hretry hnew⟩⟩
      | cancelled => exact ⟨rfl, .raised, rfl, by simp, by simp [SendPc.publishing]⟩
    case confirm n f =>
      cases ho : s.confirms.outcome f <;> simp only [sendConfirmed, ho] at h <;> cases h
      case succeeded => exact ⟨rfl, .returned, rfl, by simp, by simp [SendPc.publishing]⟩
      case failed =>
        obtain ⟨hconf, new, hsends, hne, hretry⟩ := hfailed n rfl
        exact ⟨hconf, new, hsends, hne, fun hnew => ⟨by simp [attemptRaises, ho], hretry hnew⟩⟩
      case cancelled => exact ⟨rfl, .raised, rfl, by simp, by simp [SendPc.publishing]⟩
    case returned | raised => cases h

/-! ## Who may publish -/

/-- A `send` that may still publish has published nothing yet, or something that
failed. -/
structure Cautious (s : AsyncSender) : Prop where
  repeats : ∀ i, s.confirms.Repeats (message i)
  called : ∀ f i, s.confirms.Owned f (message i) → i < s.sends.length
  free : ∀ i call, s.sends[i]? = some call → call.pc.publishing = true →
    s.confirms.Free (message i)
  confirm : ∀ i call attempt f, s.sends[i]? = some call → call.pc = .confirm attempt f →
    s.confirms.Owned f (message i)

theorem cautious_initial : Cautious initial where
  repeats := by rintro i f g - ⟨x, hx, -⟩ -; cases hx
  called := by rintro f i ⟨x, hx, -⟩; cases hx
  free := by rintro i call hcall -; cases hcall
  confirm := by rintro i call attempt f hcall -; cases hcall

/-- A step that publishes nothing, and moves no `send`. -/
theorem Cautious.quiet (h : Cautious s) (hsends : t.sends = s.sends)
    (hg : s.confirms.Grows t.confirms)
    (hlen : t.confirms.items.length = s.confirms.items.length) : Cautious t where
  repeats i := hg.repeats hlen (h.repeats i)
  called f i ho := hsends ▸ h.called f i ((hg.owned_iff hlen).mp ho)
  free i call hcall hpc := hg.free hlen (h.free i call (hsends ▸ hcall) hpc)
  confirm i call attempt f hcall hpc := hg.owned (h.confirm i call attempt f (hsends ▸ hcall) hpc)

theorem Cautious.same (h : Cautious s) (hsends : t.sends = s.sends)
    (hitems : t.confirms.items = s.confirms.items) : Cautious t :=
  h.quiet hsends (Batching.grows_of_eq hitems) (by rw [hitems])

/-- A step of `send` that publishes nothing. -/
theorem Cautious.moves {new : SendPc} (h : Cautious s)
    (hsends : t.sends = s.sends.modify i fun call => { call with pc := new })
    (hitems : t.confirms.items = s.confirms.items) (hne : ∀ n f, new ≠ .confirm n f)
    (hfree : new.publishing = true → s.confirms.Free (message i)) : Cautious t := by
  have hg : s.confirms.Grows t.confirms := Batching.grows_of_eq hitems
  have hlen : t.confirms.items.length = s.confirms.items.length := by rw [hitems]
  refine ⟨fun j => hg.repeats hlen (h.repeats j), ?_, ?_, ?_⟩
  · intro f j ho
    rw [hsends, List.length_modify]
    exact h.called f j ((hg.owned_iff hlen).mp ho)
  · intro j call hj hpc
    refine hg.free hlen ?_
    rw [hsends, List.getElem?_modify] at hj
    obtain ⟨c, hc, rfl⟩ := Option.map_eq_some_iff.mp hj
    split at hpc
    · next hij => exact hij ▸ hfree hpc
    · exact h.free j c hc hpc
  · intro j call attempt f hj hpc
    refine hg.owned ?_
    rw [hsends, List.getElem?_modify] at hj
    obtain ⟨c, hc, rfl⟩ := Option.map_eq_some_iff.mp hj
    split at hpc
    · exact absurd hpc (hne _ _)
    · exact h.confirm j c attempt f hc hpc

/-- A step of `send` that publishes its message. -/
theorem Cautious.publishes {call : SendCall} {new : SendPc} {p : Publish} (h : Cautious s)
    (hcall : s.sends[i]? = some call) (hold : call.pc.publishing = true)
    (hsends : t.sends = s.sends.modify i fun call => { call with pc := new })
    (hnew : new.publishing = false)
    (hconfirm : ∀ n f, new = .confirm n f → f = s.confirms.items.length) (hp : p.send = i)
    (hitems : t.confirms.items = (s.confirms.alone p).items) : Cautious t := by
  have hg : (s.confirms.alone p).Grows t.confirms := Batching.grows_of_eq hitems
  have hlen : t.confirms.items.length = (s.confirms.alone p).items.length := by rw [hitems]
  refine ⟨?_, ?_, ?_, ?_⟩
  · intro j
    refine hg.repeats hlen (Batching.repeats_alone (h.repeats j) ?_)
    rintro rfl
    exact hp ▸ h.free i call hcall hold
  · intro f j ho
    rw [hsends, List.length_modify]
    rcases Batching.owned_alone_iff.mp ((hg.owned_iff hlen).mp ho) with ho | ⟨-, hj⟩
    · exact h.called f j ho
    · obtain rfl : p.send = j := hj
      exact hp ▸ (List.getElem?_eq_some_iff.mp hcall).1
  · intro j c hj hpc
    refine hg.free hlen ?_
    rw [hsends, List.getElem?_modify] at hj
    obtain ⟨c', hc', rfl⟩ := Option.map_eq_some_iff.mp hj
    split at hpc
    · rw [hnew] at hpc
      cases hpc
    · next hij =>
      refine Batching.free_alone (fun hown => hij ?_) (h.free j c' hc' hpc)
      exact hp.symm.trans hown
  · intro j c attempt f hj hpc
    refine hg.owned ?_
    rw [hsends, List.getElem?_modify] at hj
    obtain ⟨c', hc', rfl⟩ := Option.map_eq_some_iff.mp hj
    split at hpc
    · next hij =>
      rw [hconfirm attempt f hpc]
      exact Batching.owned_alone_iff.mpr (.inr ⟨rfl, hp.trans hij⟩)
    · exact Batching.grows_alone.owned (h.confirm j c' attempt f hc' hpc)

theorem cautious_send (h : Cautious s) (hb : blameless self s (.send i raises draw) = true)
    (ht : s.send self i raises draw = some t) : Cautious t := by
  obtain ⟨call, new, hcall, hsent, -⟩ := send_cases ht
  cases hpc : call.pc.publishing with
  | true =>
    rcases hsent.enters.publishes hpc with ⟨hitems, hne⟩ | ⟨hnew, hconfirm, p, hp, hitems⟩
    · exact h.moves hsent.sends hitems hne fun _ => h.free i call hcall hpc
    · exact h.publishes hcall hpc hsent.sends hnew hconfirm hp hitems
  | false =>
    obtain ⟨hconf, new', hsends, hne, hnew⟩ := send_resumes hcall hpc ht
    refine h.moves hsends (by rw [hconf]) hne ?_
    intro hpub _
    obtain ⟨hraises, hretry⟩ := hnew hpub
    cases hg : call.pc with
    | gather n b =>
      -- the gather failed, and the `send` is blameless
      rw [hg] at hraises hretry
      refine ownFailed_iff.mp ?_
      simp only [attemptRaises, beq_iff_eq] at hraises
      obtain ⟨until_, hr⟩ := Option.isSome_iff_exists.mp hretry
      simp only [SendPc.attempt] at hr
      simpa [blameless, hcall, hg, hraises, hr] using hb
    | confirm n f =>
      rw [hg] at hraises
      exact ⟨f, h.confirm i call n f hcall hg, by simpa [attemptRaises] using hraises⟩
    | begin | starting | sleep => rw [hg] at hpc; cases hpc
    | returned | raised => rw [hg] at hraises; cases hraises

theorem cautious_callSend (h : Cautious s) (body : Bytes) (routingKey : Option String) :
    Cautious { s with sends := s.sends ++ [⟨body, routingKey, .begin⟩] } := by
  refine ⟨h.repeats, ?_, ?_, ?_⟩
  · intro f j ho
    rw [List.length_append]
    exact Nat.lt_add_right _ (h.called f j ho)
  · intro j call hj hpc
    rcases of_getElem?_concat hj with hj | ⟨rfl, -⟩
    · exact h.free j call hj hpc
    · rintro ⟨f, ho⟩
      exact absurd (h.called f _ ho) (Nat.lt_irrefl _)
  · intro j call attempt f hj hpc
    rcases of_getElem?_concat hj with hj | ⟨-, rfl⟩
    · exact h.confirm j call attempt f hj hpc
    · cases hpc

theorem cautious_stop (h : Cautious s) (ht : s.stop i raises = some t) : Cautious t := by
  obtain ⟨old, new, -, -, hsends, -, hst⟩ := stop_cases ht
  cases hst with
  | flushes hold hsome hnew hc hf => exact h.same hsends (by rw [hc]; rfl)
  | closes hbegin hold hnew hpast hc hf => exact h.same hsends (by rw [hc])
  | cancels hold hnew hc hf =>
    unfold cancelFlusher at hc
    dsimp only at hc
    split at hc
    · exact h.quiet hsends (hc ▸ Batching.grows_cancel _) (by simp [hc])
    · exact h.same hsends (by rw [hc])

theorem cautious_step {a : Action} (h : Cautious s) (hb : blameless self s a = true)
    (ht : s.step self a = some t) : Cautious t := by
  cases a with
  | callSend body routingKey => cases ht; exact cautious_callSend h body routingKey
  | send i raises draw => exact cautious_send h hb ht
  | callStart =>
    cases ht
    have hal := startBegin_alongside s
    exact h.same hal.sends (by rw [← hal.confirms])
  | start i raises draw =>
    obtain ⟨u, starts, hal, rfl⟩ := start_cases ht
    exact h.same hal.sends (by rw [← hal.confirms])
  | stop i raises => exact cautious_stop h ht
  | flush =>
    obtain ⟨hsends, -, -, ⟨hc, -⟩ | ⟨-, -, hc, -⟩⟩ := flush_cases ht
    · exact h.same hsends (by rw [hc])
    · exact h.same hsends (by rw [hc]; rfl)
  | settle f ok =>
    cases ht
    exact h.quiet rfl (Batching.grows_settle f ok) (Batching.length_settle f ok)
  | gathered b =>
    obtain ⟨confirms, hclose, rfl⟩ := Option.map_eq_some_iff.mp ht
    exact h.same rfl (Batching.items_close hclose)
  | tick dt =>
    obtain ⟨-, rfl⟩ := tick_cases ht
    exact h.same rfl rfl
  | callStop | lose | loseChannel => cases ht; exact h.same rfl rfl

/-- **A message is published again only after a publish of it has failed**, in
every run in which each `send` is blameless; so a message whose first publish
succeeds is published once. -/
theorem republished_after_failure
    (h : (machine self).Reach (fun s a => blameless self s a = true) s) (i : Nat) :
    (∀ f g, f < g → s.confirms.Owned f (message i) → s.confirms.Owned g (message i) →
      ∃ e < g, s.confirms.Owned e (message i) ∧ s.confirms.outcome e = .failed) ∧
    (∀ f, s.confirms.Owned f (message i) → (∀ g, s.confirms.Owned g (message i) → f ≤ g) →
      s.confirms.outcome f = .succeeded → ∀ g, s.confirms.Owned g (message i) → g = f) := by
  have hs : Cautious s :=
    h.invariant cautious_initial fun _ _ _ _ hb hc ht => cautious_step hc hb ht
  exact ⟨hs.repeats i, fun f ho hfirst hok => (hs.repeats i).unique ho hfirst hok⟩

/-! ## A message that is published twice -/

theorem owned_message_iff {f : Nat} : s.confirms.Owned f (message i) ↔
    (s.confirms.items.map fun x => x.owner.send)[f]? = some i := by
  simp [Batching.Owned, message]

/-- The first of a batch of two has returned; the second publishes, waits for both
and tries again, since the first fails. -/
def batchOfTwo (ok : Bool) : List Action :=
  [.callSend [1] none, .send 0 false 0, .send 0 false 0, .send 0 false 0, .send 0 false 0,
    .callSend [2] none, .send 1 false 0, .settle 1 ok, .settle 0 false, .gathered 0,
    .send 1 false 0, .tick 1, .send 1 false 0]

def publishedTwice (ok : Bool) : AsyncSender :=
  ((machine pairs).runIn (fun s a => ok || blameless pairs s a) initial (batchOfTwo ok)).getD
    initial

theorem publishedTwice_reach (ok : Bool) :
    (machine pairs).Reach (fun s a => (ok || blameless pairs s a) = true) (publishedTwice ok) :=
  Machine.path_of_isSome (by cases ok <;> decide +kernel) initial

theorem publishedTwice_items (ok : Bool) :
    ((publishedTwice ok).confirms.items.map fun x => x.owner.send) = [0, 1, 1] ∧
      (publishedTwice ok).confirms.outcome 1 = if ok then .succeeded else .failed := by
  cases ok <;> decide +kernel

theorem republished_after_failure_two : ∃ e < 2,
    (publishedTwice false).confirms.Owned e (message 1) ∧
      (publishedTwice false).confirms.outcome e = .failed := by
  obtain ⟨hitems, -⟩ := publishedTwice_items false
  have hreach : (machine pairs).Reach (fun s a => blameless pairs s a = true)
      (publishedTwice false) :=
    (publishedTwice_reach false).mono fun _ _ h => by simpa using h
  refine (republished_after_failure hreach 1).1 1 2 (by decide) ?_ ?_
  · rw [owned_message_iff, hitems]; rfl
  · rw [owned_message_iff, hitems]; rfl

/-- The second message is published again, though its first publish has succeeded. -/
theorem republished_after_success : pairs.confirmDelivery = true ∧ 1 ≤ pairs.confirmBatchSize ∧
    ∃ s, (machine pairs).Reach Machine.anyStep s ∧ s.confirms.Owned 1 (message 1) ∧
      (∀ g, s.confirms.Owned g (message 1) → 1 ≤ g) ∧ s.confirms.outcome 1 = .succeeded ∧
      s.confirms.Owned 2 (message 1) := by
  obtain ⟨hitems, hok⟩ := publishedTwice_items true
  refine ⟨rfl, by decide, publishedTwice true,
    (publishedTwice_reach true).mono fun _ _ _ => trivial, ?_, ?_, hok, ?_⟩
  · rw [owned_message_iff, hitems]; rfl
  · intro g hg
    rw [owned_message_iff, hitems] at hg
    cases g with
    | zero => cases hg
    | succ g => exact Nat.le_add_left 1 g
  · rw [owned_message_iff, hitems]; rfl

end AsyncSender

end MqAdapters
