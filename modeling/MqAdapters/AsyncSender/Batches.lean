import MqAdapters.AsyncSender.Confirms

/-!
# Each confirm future is gathered once

`send` appends a publish future to `self._pending_confirms` and hands the list to
`asyncio.gather` once it is full; the flusher and `stop` hand it over before.  All
three take the whole list and leave an empty one, without an await in between.

* `Collects`: what `send` does to the futures between two awaits.
* `gathered_once`: every future that was appended is in the list or was handed to
  one gather, and the list never has `confirm_batch_size` entries at an await.
-/

namespace MqAdapters

open Python Theory

namespace AsyncSender

variable {self : Config} {s t u : AsyncSender} {i attempt : Nat} {draw : ℚ}

/-- What becomes of the futures while a `send` goes from one await to the next: a
future is awaited alone, or it is appended, and then the list is either short or
handed over at once. -/
inductive Collects (self : Config) (s t : AsyncSender) : Prop
  | same (hc : t.confirms = s.confirms)
  | alone (hno : ¬ self.batched = true) (p : Publish) (hc : t.confirms = s.confirms.alone p)
  | add (hyes : self.batched = true) (p : Publish)
      (hfew : (s.confirms.add p).collected.length < self.batchSize)
      (hc : t.confirms = s.confirms.add p)
  | fill (hyes : self.batched = true) (p : Publish) (hc : t.confirms = (s.confirms.add p).hand)

theorem Collects.alongside (h : Alongside s u) (hc : Collects self u t) : Collects self s t := by
  have hsame := h.confirms
  cases hc with
  | same hc => exact .same (hc.trans hsame)
  | alone hno p hc => exact .alone hno p (hsame ▸ hc)
  | add hyes p hfew hc => exact .add hyes p (hsame ▸ hfew) (hsame ▸ hc)
  | fill hyes p hc => exact .fill hyes p (hsame ▸ hc)

theorem sendFailed_collects : Collects self s (s.sendFailed self i attempt draw) := by
  unfold sendFailed
  split <;> exact .same rfl

/-- The size is tested right after the append. -/
theorem publish_collects {call : SendCall} :
    Collects self s (s.publish self i call attempt draw) := by
  unfold publish
  split
  · exact sendFailed_collects
  · next exchange _ =>
    dsimp only
    split
    · next hyes =>
      split
      · exact .fill hyes _ rfl
      · next hfew => exact .add hyes _ (Nat.lt_of_not_le hfew) rfl
    · next hno => exact .alone hno _ rfl

theorem sendStarting_collects {call : SendCall} {starting : Starting} :
    Collects self s (s.sendStarting self i call attempt draw starting) := by
  cases starting with
  | going pc => exact .same rfl
  | returned => exact publish_collects
  | raised => exact sendFailed_collects

theorem doPublish_collects {call : SendCall} :
    Collects self s (s.doPublish self i call attempt draw) := by
  unfold doPublish
  split
  · exact publish_collects
  · exact sendStarting_collects.alongside (startBegin_alongside s)

theorem send_collects {raises : Bool} (h : s.send self i raises draw = some t) :
    Collects self s t := by
  obtain ⟨call, -, h⟩ := Option.bind_eq_some_iff.mp h
  split at h
  · cases h
  · cases hpc : call.pc <;> simp only [hpc] at h
    case begin => cases h; exact doPublish_collects
    case starting attempt pc =>
      obtain ⟨p, hp, rfl⟩ := Option.map_eq_some_iff.mp h
      exact sendStarting_collects.alongside (startStep_alongside hp)
    case gather attempt b =>
      obtain ⟨v, -, rfl⟩ := Option.map_eq_some_iff.mp h
      cases v with
      | failed => exact sendFailed_collects
      | ok | cancelled => exact .same rfl
    case confirm attempt f =>
      cases ho : s.confirms.outcome f <;> simp only [sendConfirmed, ho] at h <;> cases h
      case failed => exact sendFailed_collects
      case succeeded | cancelled => exact .same rfl
    case sleep attempt until_ =>
      split at h <;> cases h
      exact doPublish_collects
    case returned | raised => cases h

/-- Every future that was appended is in `self._pending_confirms` or in one gather,
and the list is not full. -/
abbrev Filed (self : Config) (s : AsyncSender) : Prop :=
  s.confirms.Filed (self.batched = true) self.batchSize

theorem Collects.filed (h : Collects self s t) (hs : s.Filed self) : t.Filed self := by
  unfold Filed at hs ⊢
  cases h with
  | same hc => rwa [hc]
  | alone hno p hc => rw [hc]; exact Batching.filed_alone hs hno
  | add hyes p hfew hc => rw [hc]; exact Batching.filed_add hs hyes hfew
  | fill hyes p hc => rw [hc]; exact Batching.filed_fill hs hyes

theorem cancelFlusher_filed (hs : s.Filed self) : s.cancelFlusher.Filed self := by
  unfold cancelFlusher Filed
  dsimp only
  split
  · exact Batching.filed_cancel hs _
  · exact hs

theorem step_filed {a : Action} (hs : s.Filed self) (ht : s.step self a = some t) :
    t.Filed self := by
  have hsame : t.confirms = s.confirms → t.Filed self := fun hc => (Collects.same hc).filed hs
  have hhand : t.confirms = s.confirms.hand → t.Filed self := by
    intro hc
    unfold Filed
    rw [hc]
    exact Batching.filed_hand hs
  cases a with
  | send i raises draw => exact (send_collects ht).filed hs
  | callStart =>
    cases ht
    exact hsame (startBegin_alongside s).confirms
  | start i raises draw =>
    obtain ⟨u, starts, hal, rfl⟩ := start_cases ht
    exact hsame hal.confirms
  | stop j raises =>
    obtain ⟨old, new, -, -, -, -, hst⟩ := stop_cases ht
    cases hst with
    | flushes hbegin hsome hnew hc hf => exact hhand hc
    | cancels hcancels hnew hc hf =>
      have hcancelled := cancelFlusher_filed hs
      unfold Filed at hcancelled ⊢
      rwa [hc]
    | closes hbegin hres hnew hpast hc hf => exact hsame hc
  | flush =>
    obtain ⟨-, -, -, ⟨hc, -⟩ | ⟨-, -, hc, -⟩⟩ := flush_cases ht
    · exact hsame hc
    · exact hhand hc
  | settle f ok => cases ht; exact Batching.filed_settle hs f ok
  | gathered b =>
    obtain ⟨confirms, hclose, rfl⟩ := Option.map_eq_some_iff.mp ht
    exact Batching.filed_close hs hclose
  | tick dt =>
    obtain ⟨-, rfl⟩ := tick_cases ht
    exact hs
  | callSend | callStop | lose | loseChannel => cases ht; exact hs

/-- **Each confirm future is gathered once**: at every await of every task, each
future that was appended is in `self._pending_confirms` or has been handed to
exactly one gather, and the list has fewer than `confirm_batch_size` entries. -/
theorem gathered_once (hsize : 1 ≤ self.confirmBatchSize)
    (h : (machine self).Reach Machine.anyStep s) :
    (∀ f, s.confirms.places f =
      if self.batched = true ∧ f < s.confirms.items.length then 1 else 0) ∧
    s.confirms.collected.length < self.batchSize := by
  have hpos : 0 < self.batchSize := by
    unfold Config.batchSize
    omega
  have hfiled : s.Filed self := by
    refine Machine.Path.invariant (P := fun s => s.Filed self) h (Batching.filed_empty hpos) ?_
    exact fun s a t _ hs ht => step_filed hs ht
  exact ⟨hfiled.once, hfiled.few⟩

/-- The second `send` fills the batch and hands it over; a third starts the next. -/
def threeSent : AsyncSender :=
  ((machine pairs).runIn (fun _ _ => true) initial (oneSend true ++
    [.callSend [2] none, .send 1 false 0, .callSend [3] none, .send 2 false 0])).getD initial

theorem gathered_once_three :
    (∀ f < 3, threeSent.confirms.places f = 1) ∧ threeSent.confirms.collected = [2] := by
  have hreach : (machine pairs).Reach Machine.anyStep threeSent :=
    (Machine.path_of_isSome (by decide +kernel) initial).mono fun _ _ _ => trivial
  have hbatched : pairs.batched = true := by decide
  have hlen : threeSent.confirms.items.length = 3 := by decide +kernel
  obtain ⟨honce, -⟩ := gathered_once (by decide) hreach
  refine ⟨?_, by decide +kernel⟩
  intro f hf
  rw [honce f, hlen, if_pos ⟨hbatched, hf⟩]

end AsyncSender

end MqAdapters
