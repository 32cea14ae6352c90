import MqAdapters.AsyncSender.Confirms

/-!
# What `stop` leaves of the outstanding confirms

`stop` flushes what is in `self._pending_confirms`.  Futures that are elsewhere it
does not wait for, and its gather raises at the first failure, which `stop`
swallows.

* `spares`: no `stop` cancels a flusher whose gather has a pending future.
* `drains`: the gather of `stop` does not fail while one of the given futures in
  it is pending, and no other of them is pending when `stop` goes on.
* `stop_drains`: in such runs every future of a `send` that had returned has
  succeeded or failed when `stop` closes the channel.
-/

namespace MqAdapters

open Python Theory

namespace AsyncSender

variable {self : Config} {s t u : AsyncSender} {F : Nat → Prop} {i k : Nat} {raises : Bool}

/-- A publish future of a `send` that has returned. -/
def ReturnedFuture (s : AsyncSender) (f : Nat) : Prop :=
  ∃ i call, s.sends[i]? = some call ∧ call.pc = .returned ∧ s.confirms.Owned f (message i)

/-- A `stop` that cancels the flusher finds no pending future in its gather. -/
def spares (s : AsyncSender) : Action → Prop
  | .stop i raises => ∀ b members, s.gaveUp (.stop i raises) = some b →
      s.confirms.open? b = some members → ∀ f ∈ members, s.confirms.outcome f ≠ .pending
  | _ => True

/-- The futures in `F` that are pending when the `k`-th `stop` is done with its
flush are all in its own gather, and that does not fail while one is pending. -/
def drains (F : Nat → Prop) (k : Nat) (s : AsyncSender) : Action → Prop
  | .gathered b => s.stops[k]? = some (.gather b) → ∀ members, s.confirms.open? b = some members →
      s.confirms.verdict members = some .failed →
      ∀ f ∈ members, F f → s.confirms.outcome f ≠ .pending
  | .stop i _ => i = k → ∀ pc, s.stops[k]? = some pc → s.cancels pc = true →
      ∀ f, F f → s.confirms.outcome f = .pending →
      ∃ b batch, pc = .gather b ∧ s.confirms.batches[b]? = some batch ∧ f ∈ batch.members
  | _ => True

/-! ## Futures that nobody cancels -/

/-- What a step does to the futures that cancels none. -/
structure Spared (s : AsyncSender) (a : Action) (t : AsyncSender) : Prop where
  grows : s.confirms.Grows t.confirms
  uncancelled : s.confirms.Uncancelled → t.confirms.Uncancelled
  honest : s.confirms.Honest → t.confirms.Honest
  failed : ∀ b batch, t.confirms.batches[b]? = some batch → batch.verdict = some .failed →
    s.confirms.batches[b]? = some batch ∨ a = .gathered b ∧
      s.confirms.open? b = some batch.members ∧ s.confirms.verdict batch.members = some .failed

theorem Spared.of_changes {a : Action} (h : s.confirms.Changes t.confirms) : Spared s a t where
  grows := h.extends.grows
  uncancelled := h.uncancelled
  honest := h.honest
  failed _ _ hb hv := .inl (h.ended hb (by simp [hv]))

theorem cancelFlusher_spared (hs : spares s (.stop i raises)) {pc : StopPc}
    (hpc : s.stops[i]? = some pc) (hcancels : s.cancels pc = true)
    (hc : t.confirms = s.cancelFlusher.confirms) : Spared s (.stop i raises) t := by
  by_cases hf : ∃ b, s.flusher = some (.gather b)
  · obtain ⟨b, hf⟩ := hf
    have hc : t.confirms = s.confirms.cancel b := by simpa [cancelFlusher, hf] using hc
    have hgave : s.gaveUp (.stop i raises) = some b := by simp [gaveUp, hpc, hcancels, hf]
    have hitems : t.confirms.items = s.confirms.items :=
      hc ▸ Batching.items_cancel fun members => hs b members hgave
    refine ⟨Batching.grows_of_eq hitems, .of_items hitems, fun h => hc ▸ Batching.honest_cancel h b,
      fun c batch hb hv => .inl ?_⟩
    exact Batching.ended_cancel (hc ▸ hb) (by simp [hv]) (by simp [hv])
  · have hsame : t.confirms = s.confirms := by
      rw [hc]
      unfold cancelFlusher
      dsimp only
      split
      · next b hb => exact absurd ⟨b, hb⟩ hf
      · rfl
    exact .of_changes (hsame ▸ .same)

theorem step_spared {a : Action} (hs : spares s a) (ht : s.step self a = some t) :
    Spared s a t := by
  rcases step_changes ht with h | ⟨b, rfl, hclose⟩ | ⟨j, raises, rfl⟩
  · exact .of_changes h
  · refine ⟨(Batching.evolves_close hclose).grows, .of_items (Batching.items_close hclose),
      fun h => Batching.honest_close h hclose, fun c batch hb hv => ?_⟩
    refine (Batching.ended_close hclose hb).imp_right ?_
    rintro ⟨rfl, hopen, hverdict⟩
    exact ⟨rfl, hopen, hverdict.trans hv⟩
  · obtain ⟨old, new, hold, -, -, -, hst⟩ := stop_cases ht
    cases hst with
    | flushes hbegin hsome hnew hc hf => exact .of_changes (hc ▸ .hand)
    | cancels hcancels hnew hc hf => exact cancelFlusher_spared hs hold hcancels hc
    | closes hbegin hres hnew hpast hc hf => exact .of_changes (hc ▸ .same)

/-! ## The flush of one `stop` -/

/-- The futures of `F` are settled once the `k`-th `stop` has flushed, and those in
its gather once that has failed. -/
structure Draining (F : Nat → Prop) (k : Nat) (s : AsyncSender) : Prop where
  honest : s.confirms.Honest
  uncancelled : s.confirms.Uncancelled
  called : ∃ pc, s.stops[k]? = some pc
  failed : ∀ b batch, s.stops[k]? = some (.gather b) → s.confirms.batches[b]? = some batch →
    batch.verdict = some .failed → ∀ f ∈ batch.members, F f → s.confirms.outcome f ≠ .pending
  past : ∀ pc, s.stops[k]? = some pc → pc.past = true →
    ∀ f, F f → s.confirms.outcome f ≠ .pending

theorem Spared.settled {a : Action} {f : Nat} (h : Spared s a t)
    (hf : s.confirms.outcome f ≠ .pending) : t.confirms.outcome f ≠ .pending := by
  rwa [h.grows.settled hf]

/-- Another task goes on, or a gather ends. -/
theorem Draining.other {a : Action} (h : Draining F k s) (hsp : Spared s a t)
    (hd : drains F k s a) (hk : t.stops[k]? = s.stops[k]?) : Draining F k t := by
  refine ⟨hsp.honest h.honest, hsp.uncancelled h.uncancelled, hk ▸ h.called, ?_, ?_⟩
  · intro b batch hpc hb hv f hf hF
    rw [hk] at hpc
    rcases hsp.failed b batch hb hv with hb | ⟨rfl, hopen, hverdict⟩
    · exact hsp.settled (h.failed b batch hpc hb hv f hf hF)
    · exact hsp.settled (hd hpc batch.members hopen hverdict f hf hF)
  · intro pc hpc hpast f hF
    exact hsp.settled (h.past pc (hk ▸ hpc) hpast f hF)

/-- The members of the batch that `stop` has waited for are settled. -/
theorem Draining.gathered {b : Nat} {batch : Batch} (h : Draining F k s)
    (hpc : s.stops[k]? = some (.gather b)) (hcancels : s.cancels (.gather b) = true)
    (hb : s.confirms.batches[b]? = some batch) {f : Nat} (hf : f ∈ batch.members) (hF : F f) :
    s.confirms.outcome f ≠ .pending := by
  cases hv : batch.verdict with
  | none => simp [AsyncSender.cancels, Batching.result, hb, hv] at hcancels
  | some v =>
    cases v with
    | ok => simp [h.honest batch (List.mem_of_getElem? hb) hv f hf]
    | failed => exact h.failed b batch hpc hb hv f hf hF
    | cancelled => simp [AsyncSender.cancels, Batching.result, hb, hv] at hcancels

/-- The `k`-th `stop` goes on. -/
theorem draining_stop (h : Draining F k s) (hsp : Spared s (.stop k raises) t)
    (hd : drains F k s (.stop k raises)) (ht : s.stop k raises = some t) : Draining F k t := by
  obtain ⟨old, new, hold, hstops, -, -, hst⟩ := stop_cases ht
  have hself : t.stops[k]? = some new := by
    rw [hstops, List.getElem?_set_self (List.getElem?_eq_some_iff.mp hold).1]
  refine ⟨hsp.honest h.honest, hsp.uncancelled h.uncancelled, ⟨new, hself⟩, ?_, ?_⟩
  · intro b batch hpc hb hv f hf hF
    obtain rfl : new = .gather b := Option.some.inj (hself.symm.trans hpc)
    cases hst with
    | flushes hbegin hsome hnew hc hfl =>
      -- the batch is new
      cases hnew
      rw [hc] at hb
      have hlt := Batching.ended_hand hb (by simp [hv])
      exact absurd (List.getElem?_eq_some_iff.mp hlt).1 (Nat.lt_irrefl _)
    | cancels hcancels hnew hc hfl => cases hnew
    | closes hbegin hres hnew hpast hc hfl => cases hnew
  · intro pc hpc hpast f hF
    obtain rfl : new = pc := Option.some.inj (hself.symm.trans hpc)
    apply hsp.settled
    cases hst with
    | flushes hbegin hsome hnew hc hfl =>
      rw [hnew] at hpast
      cases hpast
    | cancels hcancels hnew hc hfl =>
      intro hpending
      obtain ⟨b, batch, rfl, hb, hf⟩ := hd rfl old hold hcancels f hF hpending
      exact h.gathered hold hcancels hb hf hF hpending
    | closes hbegin hres hnew hpast' hc hfl => exact h.past old hold (hpast' hpast) f hF

theorem draining_step {a : Action} (h : Draining F k s) (hs : spares s a) (hd : drains F k s a)
    (ht : s.step self a = some t) : Draining F k t := by
  have hsp := step_spared hs ht
  by_cases ha : ∃ raises, a = .stop k raises
  · obtain ⟨raises, rfl⟩ := ha
    exact draining_stop h hsp hd ht
  · obtain ⟨pc, hpc⟩ := h.called
    have hk := stops_kept ht hpc fun raises hstop => ha ⟨raises, hstop⟩
    exact h.other hsp hd (hk.trans hpc.symm)

theorem uncancelled_of_reach (h : (machine self).Reach spares s) :
    s.confirms.Honest ∧ s.confirms.Uncancelled := by
  refine h.invariant (P := fun s => s.confirms.Honest ∧ s.confirms.Uncancelled) ⟨?_, ?_⟩ ?_
  · exact fun _ h => absurd h List.not_mem_nil
  · exact nofun
  · intro s a t _ hs hp ht
    have hsp := step_spared hs ht
    exact ⟨hsp.honest hp.1, hsp.uncancelled hp.2⟩

/-- **`stop` drains the outstanding confirms** in every run that spares and drains:
when it closes the channel, each future of a `send` that had returned before
`stop` was called has succeeded or failed. -/
theorem stop_drains {pc : StopPc} (hs : (machine self).Reach spares s)
    (hstop : s.step self .callStop = some t)
    (hu : (machine self).Path (fun v a => spares v a ∧ drains s.ReturnedFuture s.stops.length v a)
      t u) (hpc : u.stops[s.stops.length]? = some pc) (hpast : pc.past = true) :
    ∀ f, s.ReturnedFuture f →
      u.confirms.outcome f = .succeeded ∨ u.confirms.outcome f = .failed := by
  obtain ⟨hhonest, huncancelled⟩ := uncancelled_of_reach hs
  cases hstop
  have hbegin : (s.stops ++ [StopPc.begin])[s.stops.length]? = some .begin :=
    List.getElem?_concat_length
  have hd : Draining s.ReturnedFuture s.stops.length u := by
    refine hu.invariant (P := Draining s.ReturnedFuture s.stops.length)
      ⟨hhonest, huncancelled, ⟨.begin, hbegin⟩, ?_, ?_⟩ ?_
    · intro b batch hpc
      cases hbegin.symm.trans hpc
    · intro pc hpc hpast
      cases Option.some.inj (hbegin.symm.trans hpc)
      cases hpast
    · exact fun _ _ _ hc h ht => draining_step h hc.1 hc.2 ht
  intro f hf
  have hne := hd.past pc hpc hpast f hf
  have hnc := hd.uncancelled f
  cases ho : u.confirms.outcome f with
  | pending => exact absurd ho hne
  | succeeded => exact .inl rfl
  | failed => exact .inr rfl
  | cancelled => exact absurd ho hnc

/-! ## A future that `stop` waits for, and one that it cancels -/

/-- One `send` connects, publishes and returns. -/
def pendingSend : List Action :=
  [.callSend [1] none, .send 0 false 0, .send 0 false 0, .send 0 false 0, .send 0 false 0]

/-- The only future is settled before `stop` goes on. -/
def settledFirst (s : AsyncSender) : Action → Bool
  | .gathered _ => s.confirms.outcome 0 != .pending
  | .stop i raises => (s.gaveUp (.stop i raises)).isNone &&
      (s.stops[i]?).all fun pc => !s.cancels pc || s.confirms.outcome 0 != .pending
  | _ => true

def sentPending : AsyncSender :=
  ((machine pairs).runIn settledFirst initial pendingSend).getD initial

def pendingCalled : AsyncSender := (sentPending.step pairs .callStop).getD initial

/-- `stop` waits for the future, which fails, and closes the channel. -/
def pendingStopped : AsyncSender :=
  ((machine pairs).runIn settledFirst pendingCalled
    [.stop 0 false, .settle 0 false, .gathered 0, .stop 0 false]).getD initial

theorem spares_of_settledFirst {a : Action} (h : settledFirst s a = true) : spares s a := by
  cases a with
  | stop i raises =>
    intro b members hg
    simp [settledFirst, hg] at h
  | _ => trivial

theorem drains_of_settledFirst {a : Action} (hF : ∀ f, F f → f = 0)
    (h : settledFirst s a = true) : drains F k s a := by
  cases a with
  | gathered b =>
    intro _ _ _ _ f _ hf
    obtain rfl := hF f hf
    simpa [settledFirst] using h
  | stop i raises =>
    rintro rfl pc hpc hcancels f hf hpending
    obtain rfl := hF f hf
    simp [settledFirst, hpc, hcancels, hpending] at h
  | _ => trivial

theorem sentPending_returned (f : Nat) : sentPending.ReturnedFuture f ↔ f = 0 := by
  have hlen : sentPending.confirms.items.length = 1 := by decide +kernel
  constructor
  · rintro ⟨i, call, -, -, ho⟩
    have := ho.lt
    omega
  · rintro rfl
    have hsend : ((sentPending.sends[0]?).map SendCall.pc) = some .returned ∧
        ((sentPending.confirms.items[0]?).map fun x => x.owner.send) = some 0 := by
      decide +kernel
    obtain ⟨call, hcall, hpc⟩ := Option.map_eq_some_iff.mp hsend.1
    obtain ⟨x, hx, hown⟩ := Option.map_eq_some_iff.mp hsend.2
    exact ⟨0, call, hcall, hpc, x, hx, hown⟩

theorem stop_drains_one : sentPending.confirms.outcome 0 = .pending ∧
    (pendingStopped.confirms.outcome 0 = .succeeded ∨
      pendingStopped.confirms.outcome 0 = .failed) := by
  have hsent : (machine pairs).Reach spares sentPending :=
    (Machine.path_of_isSome (by decide +kernel) initial).mono fun _ _ => spares_of_settledFirst
  have hstopped : (machine pairs).Path (fun v a => spares v a ∧
      drains sentPending.ReturnedFuture sentPending.stops.length v a)
      pendingCalled pendingStopped :=
    (Machine.path_of_isSome (c := settledFirst) (by decide +kernel) initial).mono fun v a h =>
      ⟨spares_of_settledFirst h, drains_of_settledFirst (fun f => (sentPending_returned f).mp) h⟩
  have hpast : pendingStopped.stops[sentPending.stops.length]? = some (.closeChannel 0) := by
    decide +kernel
  exact ⟨by decide +kernel, stop_drains hsent rfl hstopped hpast rfl 0
    ((sentPending_returned 0).mpr rfl)⟩

/-- Batches of ten, and a flusher. -/
def flushed : Config := { pairs with confirmBatchSize := 10, confirmFlushInterval := 1 }

/-- The flusher waits for the future of the only `send`. -/
def midFlush : AsyncSender :=
  ((machine flushed).runIn (fun _ _ => true) initial
    (pendingSend ++ [.flush, .tick 1, .flush])).getD initial

def midFlushCalled : AsyncSender := (midFlush.step flushed .callStop).getD initial

def midFlushStopped : AsyncSender :=
  ((machine flushed).runIn (fun _ _ => true) midFlushCalled [.stop 0 false]).getD initial

/-- `stop` finds nothing to flush, cancels the flusher, and with it the future. -/
theorem stop_cancels_future : ∃ s t u k, (machine flushed).Reach Machine.anyStep s ∧
    s.step flushed .callStop = some t ∧ (machine flushed).Path Machine.anyStep t u ∧
    u.stops[s.stops.length]? = some (.closeChannel k) ∧
    ∃ f, s.ReturnedFuture f ∧ s.confirms.outcome f = .pending ∧
      u.confirms.outcome f = .cancelled := by
  have hsend : ((midFlush.sends[0]?).map SendCall.pc) = some .returned ∧
      ((midFlush.confirms.items[0]?).map fun x => x.owner.send) = some 0 ∧
      midFlush.confirms.outcome 0 = .pending ∧
      midFlushStopped.confirms.outcome 0 = .cancelled := by
    decide +kernel
  obtain ⟨call, hcall, hpc⟩ := Option.map_eq_some_iff.mp hsend.1
  obtain ⟨x, hx, hown⟩ := Option.map_eq_some_iff.mp hsend.2.1
  refine ⟨midFlush, midFlushCalled, midFlushStopped, 0, ?_, rfl, ?_, by decide +kernel,
    0, ⟨0, call, hcall, hpc, x, hx, hown⟩, hsend.2.2⟩
  · exact (Machine.path_of_isSome (by decide +kernel) initial).mono fun _ _ _ => trivial
  · exact (Machine.path_of_isSome (c := fun _ _ => true) (by decide +kernel) initial).mono
      fun _ _ _ => trivial

end AsyncSender

end MqAdapters
