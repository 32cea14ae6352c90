import MqAdapters.AsyncSender.Steps

/-!
# Messages that are confirmed, and messages that are lost

A `send` whose batch is not full returns at once, and its future is left for
somebody else to wait for: the `send` that fills the batch, the flusher, or
`stop`.  When that batch fails, the one who waited for it tries its own message
again, or nothing at all.

* `Accounted`: the message of every `send` that has returned is confirmed, or
  somebody waits for one of its futures.
* `harmless`: a step gives up no batch with a future of a message that is not
  confirmed, unless it is the message of the very `send` that waits for it.
* `sent_confirmed`: in harmless runs, once every `send` and the final `stop`
  have returned, every message is confirmed.
-/

namespace MqAdapters

open Python Theory

namespace AsyncSender

variable {self : Config} {s t u : AsyncSender} {b i : Nat}

/-- The publishes of the message of the `i`-th `send`. -/
def message (i : Nat) (p : Publish) : Prop := p.send = i

/-- The `i`-th `send` waits for the batch `b`. -/
def AwaitedBy (s : AsyncSender) (b i : Nat) : Prop :=
  ∃ call attempt, s.sends[i]? = some call ∧ call.pc = .gather attempt b

/-- Some task waits for the batch `b`. -/
def Attended (s : AsyncSender) (b : Nat) : Prop :=
  (∃ i, s.AwaitedBy b i) ∨ s.flusher = some (.gather b) ∨
    ∃ j : Nat, s.stops[j]? = some (.gather b)

/-- The message of every `send` that has returned is confirmed, or somebody waits
for one of its futures. -/
structure Accounted (s : AsyncSender) : Prop where
  honest : s.confirms.Honest
  attended : ∀ b members, s.confirms.open? b = some members → s.Attended b
  kept : ∀ i call, s.sends[i]? = some call → call.pc = .returned → s.confirms.Kept (message i)
  waits : ∀ b i, s.AwaitedBy b i → ∃ batch, s.confirms.batches[b]? = some batch ∧
    ∃ f ∈ batch.members, s.confirms.Owned f (message i)
  confirm : ∀ i call attempt f, s.sends[i]? = some call → call.pc = .confirm attempt f →
    s.confirms.Owned f (message i)

theorem accounted_initial : Accounted initial where
  honest := fun _ h => absurd h List.not_mem_nil
  attended := fun _ _ h => by cases h
  kept := fun _ _ h => by cases h
  waits := fun _ _ ⟨_, _, h, _⟩ => by cases h
  confirm := fun _ _ _ _ h => by cases h

/-- The batch that a step gives up: it ends badly, or the flusher that waits for
it is cancelled. -/
def gaveUp (s : AsyncSender) : Action → Option Nat
  | .gathered b => (s.confirms.open? b).bind fun members =>
    if s.confirms.verdict members = some .ok then none else some b
  | .stop i _ => (s.stops[i]?).bind fun pc =>
    if s.cancels pc then
      match s.flusher with
      | some (.gather b) => some b
      | _ => none
    else none
  | _ => none

/-- A step gives up no batch with a future of a message that is not confirmed,
unless it is the message of the `send` that waits for the batch. -/
def harmless (s : AsyncSender) (a : Action) : Prop :=
  ∀ b members, s.gaveUp a = some b → s.confirms.open? b = some members →
    ∀ f ∈ members, ∀ i, s.confirms.Owned f (message i) →
      s.confirms.Confirmed (message i) ∨ s.AwaitedBy b i

/-! ## Steps of a task that is not a `send` -/

theorem AwaitedBy.of_sends (h : t.sends = s.sends) : t.AwaitedBy b i ↔ s.AwaitedBy b i := by
  unfold AwaitedBy
  rw [h]

/-- The calls of `send` stay, and so does what each of them has. -/
theorem Accounted.evolves (h : Accounted s) (hsends : t.sends = s.sends)
    (hev : s.confirms.Evolves t.confirms) (honest : t.confirms.Honest)
    (attended : ∀ b members, t.confirms.open? b = some members → t.Attended b)
    (kept : ∀ i call, s.sends[i]? = some call → call.pc = .returned →
      s.confirms.Kept (message i) → t.confirms.Kept (message i)) : Accounted t where
  honest := honest
  attended := attended
  kept i call hcall hpc := by
    rw [hsends] at hcall
    exact kept i call hcall hpc (h.kept i call hcall hpc)
  waits b i hw := by
    obtain ⟨batch, hb, f, hf, ho⟩ := h.waits b i ((AwaitedBy.of_sends hsends).mp hw)
    obtain ⟨batch', hb', hmem⟩ := hev.members b batch hb
    exact ⟨batch', hb', f, hmem ▸ hf, hev.grows.owned ho⟩
  confirm i call attempt f hcall hpc := by
    rw [hsends] at hcall
    exact hev.grows.owned (h.confirm i call attempt f hcall hpc)

/-- A task that leaves a gather leaves one that has ended. -/
def Stays (s t : AsyncSender) : Prop :=
  ∀ b, s.Attended b → (s.confirms.result b).isSome = true ∨ t.Attended b

theorem Stays.attended (h : Stays s t) {members : List Nat}
    (hb : s.confirms.open? b = some members) (ha : s.Attended b) : t.Attended b := by
  refine (h b ha).resolve_left ?_
  intro hr
  rw [Batching.open?_of_result hr] at hb
  cases hb

/-- The flusher and the calls of `stop` go on, one of them perhaps leaving a
gather. -/
theorem stays_of (hsends : t.sends = s.sends)
    (hf : ∀ b, s.flusher = some (.gather b) → (s.confirms.result b).isSome = true ∨
      t.flusher = some (.gather b))
    (hst : ∀ (j : Nat) b, s.stops[j]? = some (.gather b) →
      (s.confirms.result b).isSome = true ∨ t.stops[j]? = some (.gather b)) : Stays s t := by
  rintro b (⟨i, hi⟩ | hfl | ⟨j, hj⟩)
  · exact .inr (.inl ⟨i, (AwaitedBy.of_sends hsends).mpr hi⟩)
  · exact (hf b hfl).imp_right fun h => .inr (.inl h)
  · exact (hst j b hj).imp_right fun h => .inr (.inr ⟨j, h⟩)

/-- A step that touches no confirms. -/
theorem Accounted.aside (h : Accounted s) (hsends : t.sends = s.sends)
    (hc : t.confirms = s.confirms) (hstays : Stays s t) : Accounted t := by
  refine h.evolves hsends (hc ▸ (Batching.Extends.refl s.confirms).evolves) (hc ▸ h.honest) ?_
    (fun _ _ _ _ hk => hc ▸ hk)
  intro b members hb
  rw [hc] at hb
  exact hstays.attended hb (h.attended b members hb)

/-- A step that hands over what was collected, and waits for it. -/
theorem Accounted.hands (h : Accounted s) (hsends : t.sends = s.sends)
    (hc : t.confirms = s.confirms.hand) (hstays : Stays s t)
    (hnew : t.Attended s.confirms.batches.length) : Accounted t := by
  have hext := Batching.extends_hand (s := s.confirms)
  rw [← hc] at hext
  refine h.evolves hsends hext.evolves (hc ▸ Batching.honest_hand h.honest) ?_
    (fun _ _ _ _ hk => hext.kept hk)
  intro b members hb
  rw [hc, Batching.open?_hand] at hb
  split at hb
  · next heq => exact heq ▸ hnew
  · exact hstays.attended hb (h.attended b members hb)

theorem accounted_flush (h : Accounted s) (ht : s.flush self = some t) : Accounted t := by
  obtain ⟨hsends, -, hstops, ⟨hc, -, hf⟩ | ⟨-, hf, hc, hfl⟩⟩ := flush_cases ht
  · exact h.aside hsends hc (stays_of hsends (fun b hb => .inl (hf b hb))
      fun _ _ hj => .inr (hstops ▸ hj))
  · exact h.hands hsends hc (stays_of hsends (fun b hb => absurd hb (hf b))
      fun _ _ hj => .inr (hstops ▸ hj)) (.inr (.inl hfl))

theorem result_of_cancels (h : s.cancels (.gather b) = true) :
    (s.confirms.result b).isSome = true := by
  rcases hr : s.confirms.result b with _ | v
  · simp [AsyncSender.cancels, hr] at h
  · rfl

/-- A step that gives up a batch without a message that needs it loses none. -/
theorem confirmed_of_gaveUp {a : Action} (hh : harmless s a) (hg : s.gaveUp a = some b)
    {call : SendCall} (hcall : s.sends[i]? = some call) (hpc : call.pc = .returned)
    (members : List Nat) (hb : s.confirms.open? b = some members)
    (hf : ∃ f ∈ members, s.confirms.Owned f (message i)) : s.confirms.Confirmed (message i) := by
  obtain ⟨f, hf, ho⟩ := hf
  refine (hh b members hg hb f hf i ho).resolve_right ?_
  rintro ⟨call', attempt, hcall', hpc'⟩
  obtain rfl : call = call' := Option.some.inj (hcall.symm.trans hcall')
  rw [hpc] at hpc'
  cases hpc'

/-- `stop` cancels the flusher. -/
theorem Accounted.cancels {raises : Bool} {old : StopPc} (h : Accounted s)
    (hh : harmless s (.stop i raises)) (hold : s.stops[i]? = some old)
    (hcancels : s.cancels old = true) (hsends : t.sends = s.sends)
    (hc : t.confirms = s.cancelFlusher.confirms)
    (hst : ∀ (j : Nat) b, s.stops[j]? = some (.gather b) →
      (s.confirms.result b).isSome = true ∨ t.stops[j]? = some (.gather b)) : Accounted t := by
  by_cases hf : ∃ b, s.flusher = some (.gather b)
  · obtain ⟨b, hf⟩ := hf
    have hc : t.confirms = s.confirms.cancel b := by simpa [cancelFlusher, hf] using hc
    have hgave : s.gaveUp (.stop i raises) = some b := by
      simp [gaveUp, hold, hcancels, hf]
    refine h.evolves hsends (hc ▸ Batching.evolves_cancel b)
      (hc ▸ Batching.honest_cancel h.honest b) ?_ ?_
    · intro c members hopen
      rw [hc] at hopen
      obtain ⟨hopen, hne⟩ := Batching.open?_of_cancel hopen
      have hnone : ¬ (s.confirms.result c).isSome = true := fun hr => by
        rw [Batching.open?_of_result hr] at hopen
        cases hopen
      rcases h.attended c members hopen with ⟨i, hi⟩ | hfl | ⟨j, hj⟩
      · exact .inl ⟨i, (AwaitedBy.of_sends hsends).mpr hi⟩
      · rw [hf] at hfl
        cases hfl
        exact absurd rfl hne
      · exact .inr (.inr ⟨j, (hst j c hj).resolve_left hnone⟩)
    · intro i call hcall hpc hk
      rw [hc]
      exact Batching.kept_cancel hk (confirmed_of_gaveUp hh hgave hcall hpc)
  · have hsame : t.confirms = s.confirms := by
      rw [hc]
      unfold cancelFlusher
      dsimp only
      split
      · next b hb => exact absurd ⟨b, hb⟩ hf
      · rfl
    exact h.aside hsends hsame (stays_of hsends (fun b hb => absurd ⟨b, hb⟩ hf) hst)

theorem accounted_stop {raises : Bool} (h : Accounted s) (hh : harmless s (.stop i raises))
    (ht : s.stop i raises = some t) : Accounted t := by
  obtain ⟨old, new, hold, hstops, hsends, -, hst⟩ := stop_cases ht
  -- the other calls stay where they are
  have hleaves : (∀ b, old = .gather b → (s.confirms.result b).isSome = true) →
      ∀ (j : Nat) b, s.stops[j]? = some (.gather b) →
        (s.confirms.result b).isSome = true ∨ t.stops[j]? = some (.gather b) := by
    intro hres j b hj
    by_cases hij : i = j
    · subst hij
      rw [hold] at hj
      exact .inl (hres b (Option.some.inj hj))
    · exact .inr (by rw [hstops, List.getElem?_set_ne hij, hj])
  cases hst with
  | flushes hbegin hsome hnew hc hf =>
    subst hbegin
    refine h.hands hsends hc (stays_of hsends (fun b hb => .inr (hf ▸ hb)) (hleaves nofun))
      (.inr (.inr ⟨i, ?_⟩))
    rw [hstops, List.getElem?_set_self (List.getElem?_eq_some_iff.mp hold).1, hnew]
  | cancels hcancels hnew hc hf =>
    refine h.cancels hh hold hcancels hsends hc (hleaves ?_)
    rintro b rfl
    exact result_of_cancels hcancels
  | closes hbegin hres hnew hpast hc hf =>
    exact h.aside hsends hc (stays_of hsends (fun b hb => .inr (hf ▸ hb)) (hleaves hres))

/-! ## Steps of `send` -/

/-- What a step of `send` does to the confirms adds to them. -/
theorem Enters.extends {old new : SendPc} (h : Enters s i old t new) :
    s.confirms.Extends t.confirms := by
  cases new with
  | returned =>
    rcases h with ⟨p, -, hc⟩ | ⟨-, hc⟩
    · exact hc ▸ Batching.extends_add
    · exact hc ▸ .refl _
  | gather attempt b =>
    obtain ⟨-, p, -, hc⟩ := h
    exact hc ▸ Batching.extends_add.trans Batching.extends_hand
  | confirm attempt f =>
    obtain ⟨-, p, -, hc⟩ := h
    exact hc ▸ Batching.extends_alone
  | begin | starting | sleep | raised => exact (show t.confirms = s.confirms from h) ▸ .refl _

theorem Enters.honest {old new : SendPc} (h : Enters s i old t new) (hs : s.confirms.Honest) :
    t.confirms.Honest := by
  cases new with
  | returned =>
    rcases h with ⟨p, -, hc⟩ | ⟨-, hc⟩
    · exact hc ▸ hs.grows Batching.grows_add rfl
    · exact hc ▸ hs
  | gather attempt b =>
    obtain ⟨-, p, -, hc⟩ := h
    exact hc ▸ Batching.honest_hand (hs.grows Batching.grows_add rfl)
  | confirm attempt f =>
    obtain ⟨-, p, -, hc⟩ := h
    exact hc ▸ hs.grows Batching.grows_alone rfl
  | begin | starting | sleep | raised => exact (show t.confirms = s.confirms from h) ▸ hs

/-- A batch that is awaited after the step was so before, or `send` waits for it
now. -/
theorem Enters.open? {old new : SendPc} (h : Enters s i old t new) {members : List Nat}
    (hb : t.confirms.open? b = some members) :
    s.confirms.open? b = some members ∨ ∃ attempt, new = .gather attempt b := by
  cases new with
  | gather attempt c =>
    obtain ⟨rfl, p, -, hc⟩ := h
    rw [hc, Batching.open?_hand] at hb
    split at hb
    · next heq => exact .inr ⟨attempt, by rw [heq]; rfl⟩
    · exact .inl hb
  | returned =>
    left
    rcases h with ⟨p, -, hc⟩ | ⟨-, hc⟩ <;> rw [hc] at hb <;> exact hb
  | confirm attempt f =>
    obtain ⟨-, p, -, hc⟩ := h
    rw [hc] at hb
    exact .inl hb
  | begin | starting | sleep | raised =>
    exact .inl ((show t.confirms = s.confirms from h) ▸ hb)

/-- A `send` that returns leaves its message kept. -/
theorem Accounted.returns {call : SendCall} (h : Accounted s) (hcall : s.sends[i]? = some call)
    (he : Enters s i call.pc t .returned) : t.confirms.Kept (message i) := by
  rcases he with ⟨p, hp, hc⟩ | ⟨hdone, hc⟩
  · exact hc ▸ Batching.kept_add hp
  · rw [hc]
    apply Batching.Confirmed.kept
    cases hpc : call.pc with
    | gather attempt b =>
      rw [hpc] at hdone
      obtain ⟨batch, hb, f, hf, ho⟩ := h.waits b i ⟨call, attempt, hcall, hpc⟩
      refine ⟨f, ho, h.honest batch (List.mem_of_getElem? hb) ?_ f hf⟩
      simpa [Done, Batching.result, hb] using hdone
    | confirm attempt f =>
      rw [hpc] at hdone
      exact ⟨f, h.confirm i call attempt f hcall hpc, hdone⟩
    | _ => exact absurd hdone (by simp [hpc, Done])

theorem accounted_send {raises : Bool} {draw : ℚ} (h : Accounted s)
    (ht : s.send self i raises draw = some t) : Accounted t := by
  obtain ⟨call, new, hcall, ⟨hsends, -, hstops, hfl, he⟩, hres⟩ := send_cases ht
  have hext := he.extends
  have hself : t.sends[i]? = some { call with pc := new } := by
    rw [hsends, List.getElem?_modify]
    simp [hcall]
  have hother : ∀ j, i ≠ j → t.sends[j]? = s.sends[j]? := by
    intro j hij
    rw [hsends, List.getElem?_modify]
    simp [hij]
  refine ⟨he.honest h.honest, ?_, ?_, ?_, ?_⟩
  · intro b members hb
    rcases he.open? hb with hs | ⟨attempt, hnew⟩
    · rcases h.attended b members hs with ⟨j, c, attempt, hj, hpc⟩ | hf | ⟨j, hj⟩
      · by_cases hij : i = j
        · subst hij
          obtain rfl : call = c := Option.some.inj (hcall.symm.trans hj)
          rw [Batching.open?_of_result (hres attempt b hpc)] at hs
          cases hs
        · exact .inl ⟨j, c, attempt, (hother j hij).trans hj, hpc⟩
      · rcases hfl with hfl | ⟨hnone, -⟩
        · exact .inr (.inl (hfl ▸ hf))
        · rw [hnone] at hf
          cases hf
      · exact .inr (.inr ⟨j, hstops ▸ hj⟩)
    · exact .inl ⟨i, _, attempt, hself, hnew⟩
  · intro j c hj hpc
    by_cases hij : i = j
    · subst hij
      obtain rfl := Option.some.inj (hself.symm.trans hj)
      obtain rfl : new = .returned := hpc
      exact h.returns hcall he
    · rw [hother j hij] at hj
      exact hext.kept (h.kept j c hj hpc)
  · rintro b j ⟨c, attempt, hj, hpc⟩
    by_cases hij : i = j
    · subst hij
      obtain rfl := Option.some.inj (hself.symm.trans hj)
      obtain rfl : new = .gather attempt b := hpc
      obtain ⟨rfl, p, hp, hc⟩ := he
      refine ⟨⟨(s.confirms.add p).collected, none⟩, ?_, s.confirms.items.length, ?_, ?_⟩
      · rw [hc]
        simp [Batching.hand, Batching.add, Batching.alone]
      · simp [Batching.add, Batching.alone]
      · rw [hc]
        exact (Batching.grows_of_eq rfl).owned (Batching.owned_add hp)
    · rw [hother j hij] at hj
      obtain ⟨batch, hb, f, hf, ho⟩ := h.waits b j ⟨c, attempt, hj, hpc⟩
      obtain ⟨batch', hb', hmem⟩ := hext.evolves.members b batch hb
      exact ⟨batch', hb', f, hmem ▸ hf, hext.grows.owned ho⟩
  · intro j c attempt f hj hpc
    by_cases hij : i = j
    · subst hij
      obtain rfl := Option.some.inj (hself.symm.trans hj)
      obtain rfl : new = .confirm attempt f := hpc
      obtain ⟨rfl, p, hp, hc⟩ := he
      rw [hc]
      exact (Batching.grows_of_eq rfl).owned (Batching.owned_add (s := s.confirms) hp)
    · rw [hother j hij] at hj
      exact hext.grows.owned (h.confirm j c attempt f hj hpc)

/-! ## The other steps -/

/-- A new call of `send` has nothing yet. -/
theorem accounted_callSend (h : Accounted s) (body : Bytes) (routingKey : Option String) :
    Accounted { s with sends := s.sends ++ [⟨body, routingKey, .begin⟩] } := by
  have hold : ∀ (j : Nat) call, (s.sends ++ [⟨body, routingKey, .begin⟩])[j]? = some call →
      call.pc ≠ .begin → s.sends[j]? = some call := by
    intro j call hj hpc
    rcases of_getElem?_concat hj with hj | ⟨-, rfl⟩
    · exact hj
    · exact absurd rfl hpc
  refine ⟨h.honest, ?_, ?_, ?_, ?_⟩
  · intro b members hb
    refine (h.attended b members hb).imp_left fun ⟨j, call, attempt, hj, hpc⟩ => ?_
    exact ⟨j, call, attempt, getElem?_concat_of_some hj, hpc⟩
  · exact fun j call hj hpc => h.kept j call (hold j call hj (by simp [hpc])) hpc
  · rintro b j ⟨call, attempt, hj, hpc⟩
    exact h.waits b j ⟨call, attempt, hold j call hj (by simp [hpc]), hpc⟩
  · exact fun j call attempt f hj hpc =>
      h.confirm j call attempt f (hold j call hj (by simp [hpc])) hpc

/-- A gather that ends badly is one that nobody else needs. -/
theorem accounted_gathered {confirms : Batching Publish} (h : Accounted s)
    (hh : harmless s (.gathered b)) (ht : s.confirms.close b = some confirms) :
    Accounted { s with confirms := confirms } := by
  refine h.evolves rfl (Batching.evolves_close ht) (Batching.honest_close h.honest ht) ?_ ?_
  · exact fun c members hopen => h.attended c members (Batching.open?_of_close ht hopen)
  · intro i call hcall hpc hk
    refine Batching.kept_close ht hk ?_
    intro members hb hbad hf
    exact confirmed_of_gaveUp hh (by simp [gaveUp, hb, hbad]) hcall hpc members hb hf

theorem stays_alongside (h : Alongside s t) : Stays s t := by
  refine stays_of h.sends (fun b hb => .inr ?_) fun j b hj => .inr (by rw [h.stops, hj])
  rcases h.flusher with hf | ⟨hnone, -⟩
  · rw [hf, hb]
  · rw [hnone] at hb
    cases hb

theorem accounted_step {a : Action} (h : Accounted s) (hh : harmless s a)
    (ht : s.step self a = some t) : Accounted t := by
  have hsame : ∀ {u : AsyncSender}, u.sends = s.sends → u.confirms = s.confirms →
      u.flusher = s.flusher → u.stops = s.stops → Accounted u :=
    fun hsends hc hf hst => h.aside hsends hc (stays_of hsends (fun b hb => .inr (hf ▸ hb))
      fun j b hj => .inr (hst ▸ hj))
  cases a with
  | callSend body routingKey => cases ht; exact accounted_callSend h body routingKey
  | send i raises draw => exact accounted_send h ht
  | callStart =>
    cases ht
    have hal := startBegin_alongside s
    exact h.aside hal.sends hal.confirms fun b hb => stays_alongside hal b hb
  | start i raises draw =>
    obtain ⟨u, starts, hal, rfl⟩ := start_cases ht
    exact h.aside hal.sends hal.confirms fun b hb => stays_alongside hal b hb
  | callStop =>
    cases ht
    have hstops : ∀ (j b : Nat), s.stops[j]? = some (.gather b) →
        (s.stops ++ [StopPc.begin])[j]? = some (.gather b) := fun _ _ => getElem?_concat_of_some
    exact h.aside rfl rfl (stays_of rfl (fun b hb => .inr hb) fun j b hj => .inr (hstops j b hj))
  | stop i raises => exact accounted_stop h hh ht
  | flush => exact accounted_flush h ht
  | settle f ok =>
    cases ht
    have hext := Batching.extends_settle (s := s.confirms) f ok
    exact h.evolves rfl hext.evolves (h.honest.grows hext.grows rfl)
      (fun b _ hb => h.attended b _ hb) fun _ _ _ _ hk => hext.kept hk
  | gathered b =>
    obtain ⟨confirms, hclose, rfl⟩ := Option.map_eq_some_iff.mp ht
    exact accounted_gathered h hh hclose
  | tick dt =>
    obtain ⟨-, rfl⟩ := tick_cases ht
    exact hsame rfl rfl rfl rfl
  | lose | loseChannel => cases ht; exact hsame rfl rfl rfl rfl

theorem accounted_of_path (h : (machine self).Path harmless s t) (hs : Accounted s) :
    Accounted t :=
  h.invariant hs fun _ _ _ hh ha ht => accounted_step ha hh ht

/-! ## The final `stop` -/

def noSend : Action → Bool
  | .callSend _ _ => false
  | _ => true

/-- What holds once the last `send` has returned and the `j`-th call of `stop` is
made: nothing is collected once that has flushed, and the flusher waits for no
batch once it has been cancelled. -/
structure Closing (j : Nat) (s : AsyncSender) : Prop where
  returned : ∀ call ∈ s.sends, call.pc = .returned
  called : ∃ pc, s.stops[j]? = some pc ∧ (pc ≠ .begin → s.confirms.collected = []) ∧
    (pc.past = true → ∀ b, s.flusher ≠ some (.gather b))

/-- Everything but the `j`-th call of `stop` keeps it. -/
theorem Closing.other {j : Nat} (h : Closing j s) (hsends : t.sends = s.sends)
    (hstops : t.stops[j]? = s.stops[j]?)
    (hc : s.confirms.collected = [] → t.confirms.collected = [])
    (hf : s.confirms.collected = [] → ∀ b, t.flusher = some (.gather b) →
      s.flusher = some (.gather b)) : Closing j t := by
  obtain ⟨pc, hpc, hnil, hcalm⟩ := h.called
  refine ⟨hsends ▸ h.returned, pc, hstops ▸ hpc, fun hne => hc (hnil hne), ?_⟩
  intro hpast b hb
  have hne : pc ≠ .begin := by
    rintro rfl
    cases hpast
  exact hcalm hpast b (hf (hnil hne) b hb)

theorem Closing.alongside {j : Nat} (h : Closing j s) (hal : Alongside s u)
    (hsends : t.sends = u.sends) (hstops : t.stops = u.stops) (hc : t.confirms = u.confirms)
    (hf : t.flusher = u.flusher) : Closing j t := by
  refine h.other (hsends.trans hal.sends) (by rw [hstops, hal.stops])
    (fun hnil => by rw [hc, hal.confirms, hnil]) fun _ b hb => ?_
  rw [hf] at hb
  rcases hal.flusher with hfl | ⟨-, hbegin⟩
  · rw [← hfl, hb]
  · rw [hbegin] at hb
    cases hb

theorem closing_stop {i j : Nat} {raises : Bool} (h : Closing j s)
    (ht : s.stop i raises = some t) : Closing j t := by
  obtain ⟨old, new, hold, hstops, hsends, -, hst⟩ := stop_cases ht
  by_cases hij : i = j
  · subst hij
    obtain ⟨pc, hpc, hnil, hcalm⟩ := h.called
    obtain rfl : old = pc := Option.some.inj (hold.symm.trans hpc)
    have hself : t.stops[i]? = some new := by
      rw [hstops, List.getElem?_set_self (List.getElem?_eq_some_iff.mp hold).1]
    refine ⟨hsends ▸ h.returned, new, hself, ?_, ?_⟩
    · intro hne
      cases hst with
      | flushes hbegin hsome hnew hc hf => rw [hc]; rfl
      | cancels hcancels hnew hc hf =>
        have hcol : t.confirms.collected = s.confirms.collected := by
          rw [hc]
          unfold cancelFlusher
          dsimp only
          split <;> simp
        rw [hcol]
        by_cases hb : old = .begin
        · subst hb
          simpa [AsyncSender.cancels] using hcancels
        · exact hnil hb
      | closes hbegin hres hnew hpast hc hf => rw [hc]; exact hnil hbegin
    · intro hpast b
      cases hst with
      | flushes hbegin hsome hnew hc hf =>
        rw [hnew] at hpast
        cases hpast
      | cancels hcancels hnew hc hf => simp [hf]
      | closes hbegin hres hnew hpast' hc hf => rw [hf]; exact hcalm (hpast' hpast) b
  · refine h.other hsends (by rw [hstops, List.getElem?_set_ne hij]) (fun hnil => ?_)
      fun hnil b hb => ?_
    · cases hst with
      | flushes hbegin hsome hnew hc hf => rw [hc]; rfl
      | cancels hcancels hnew hc hf =>
        rw [hc]
        unfold cancelFlusher
        dsimp only
        split <;> simpa using hnil
      | closes hbegin hres hnew hpast hc hf => rw [hc, hnil]
    · cases hst with
      | flushes hbegin hsome hnew hc hf => rw [← hf, hb]
      | cancels hcancels hnew hc hf => rw [hf] at hb; cases hb
      | closes hbegin hres hnew hpast hc hf => rw [← hf, hb]

theorem closing_step {j : Nat} {a : Action} (h : Closing j s) (ha : noSend a = true)
    (ht : s.step self a = some t) : Closing j t := by
  cases a with
  | callSend body routingKey => cases ha
  | send i raises draw =>
    obtain ⟨call, hcall, ht⟩ := Option.bind_eq_some_iff.mp ht
    rw [h.returned call (List.mem_of_getElem? hcall)] at ht
    split at ht <;> cases ht
  | callStart =>
    cases ht
    exact h.alongside (startBegin_alongside s) rfl rfl rfl rfl
  | start i raises draw =>
    obtain ⟨u, starts, hal, rfl⟩ := start_cases ht
    exact h.alongside hal rfl rfl rfl rfl
  | callStop =>
    cases ht
    obtain ⟨pc, hpc, -⟩ := h.called
    have hstops : (s.stops ++ [StopPc.begin])[j]? = s.stops[j]? :=
      (getElem?_concat_of_some hpc).trans hpc.symm
    exact h.other rfl hstops id fun _ _ hb => hb
  | stop i raises => exact closing_stop h ht
  | flush =>
    obtain ⟨hsends, -, hstops, ⟨hc, hcalm, -⟩ | ⟨hne, -, hc, -⟩⟩ := flush_cases ht
    · exact h.other hsends (by rw [hstops]) (fun hnil => hc ▸ hnil)
        fun _ b hb => absurd hb (hcalm b)
    · exact h.other hsends (by rw [hstops]) (fun hnil => absurd hnil hne)
        fun hnil => absurd hnil hne
  | settle f ok => cases ht; exact h.other rfl rfl id fun _ _ hb => hb
  | gathered b =>
    obtain ⟨confirms, hclose, rfl⟩ := Option.map_eq_some_iff.mp ht
    obtain ⟨members, -, hclose⟩ := Option.bind_eq_some_iff.mp hclose
    obtain ⟨v, -, rfl⟩ := Option.map_eq_some_iff.mp hclose
    exact h.other rfl rfl id fun _ _ hb => hb
  | tick dt =>
    obtain ⟨-, rfl⟩ := tick_cases ht
    exact h.other rfl rfl id fun _ _ hb => hb
  | lose | loseChannel => cases ht; exact h.other rfl rfl id fun _ _ hb => hb

/-- The calls of `stop` are over. -/
def stopped (s : AsyncSender) : Prop := ∀ pc ∈ s.stops, pc = .returned ∨ pc = .raised

/-- Once everything has returned, nobody waits for a future. -/
theorem Closing.not_awaited {j : Nat} (h : Closing j s) (ha : Accounted s) (hover : s.stopped)
    (hret : s.stops[j]? = some .returned) (f : Nat) : ¬ s.confirms.Awaited f := by
  obtain ⟨pc, hpc, hnil, hcalm⟩ := h.called
  obtain rfl : pc = .returned := Option.some.inj (hpc.symm.trans hret)
  rintro (hf | ⟨b, members, hb, -⟩)
  · rw [hnil (by simp)] at hf
    cases hf
  · rcases ha.attended b members hb with ⟨i, call, attempt, hcall, hg⟩ | hfl | ⟨k, hk⟩
    · rw [h.returned call (List.mem_of_getElem? hcall)] at hg
      cases hg
    · exact hcalm rfl b hfl
    · rcases hover _ (List.mem_of_getElem? hk) with hk | hk <;> cases hk

/-- **No message is lost in a harmless run**: every `send` has returned when the
final `stop` is called, and once that has returned too, every message has a
future that succeeded. -/
theorem sent_confirmed (hs : (machine self).Reach harmless s)
    (hreturned : ∀ call ∈ s.sends, call.pc = .returned) (hstop : s.step self .callStop = some t)
    (hu : (machine self).Path (fun s a => harmless s a ∧ noSend a = true) t u) (hover : u.stopped)
    (hret : u.stops[s.stops.length]? = some .returned) (hi : i < u.sends.length) :
    u.confirms.Confirmed (message i) := by
  have hacc : Accounted u := by
    refine accounted_of_path (hu.mono fun _ _ h => h.1) ?_
    exact accounted_step (accounted_of_path hs accounted_initial) (fun _ _ h => by cases h) hstop
  cases hstop
  have hclosing : Closing s.stops.length u := by
    refine hu.invariant (P := Closing s.stops.length) ⟨hreturned, .begin, ?_, ?_, ?_⟩ ?_
    · exact List.getElem?_concat_length
    · exact fun hne => absurd rfl hne
    · exact nofun
    · exact fun _ _ _ hc h ht => closing_step h hc.2 ht
  obtain ⟨call, hcall⟩ : ∃ call, u.sends[i]? = some call := ⟨_, List.getElem?_eq_getElem hi⟩
  have hkept := hacc.kept i call hcall (hclosing.returned call (List.mem_of_getElem? hcall))
  exact hkept.confirmed (hclosing.not_awaited hacc hover hret)

/-! ## A message that is confirmed, and one that is lost -/

/-- Batches of two, without a flusher, and the default retry policy. -/
def pairs : Config where
  confirmDelivery := true
  retryPolicy := ⟨some 5, 1 / 4, 5, 2, 1 / 10⟩
  confirmBatchSize := 2
  confirmFlushInterval := 0
  routingKey := some "all"

/-- One `send` connects, publishes and returns; its future ends. -/
def oneSend (ok : Bool) : List Action :=
  [.callSend [1] none, .send 0 false 0, .send 0 false 0, .send 0 false 0, .send 0 false 0,
    .settle 0 ok]

/-- `stop` waits for the future and closes everything. -/
def oneStop : List Action :=
  [.stop 0 false, .gathered 0, .stop 0 false, .stop 0 false, .stop 0 false]

theorem harmless_of_none {a : Action} (h : s.gaveUp a = none) : harmless s a := by
  intro b members hg
  rw [h] at hg
  cases hg

def sentOne (ok : Bool) : AsyncSender :=
  ((machine pairs).runIn (fun s a => (s.gaveUp a).isNone) initial (oneSend ok)).getD initial

def stopCalled (ok : Bool) : AsyncSender :=
  ((sentOne ok).step pairs .callStop).getD initial

/-- The final `stop` has returned; nothing is given up if the future succeeded. -/
def stopReturned (ok : Bool) : AsyncSender :=
  ((machine pairs).runIn (fun s a => (!ok || (s.gaveUp a).isNone) && noSend a) (stopCalled ok)
    oneStop).getD initial

theorem sentOne_reach (ok : Bool) : (machine pairs).Reach harmless (sentOne ok) :=
  (Machine.path_of_isSome (by cases ok <;> decide +kernel) initial).mono
    fun _ _ h => harmless_of_none (by simpa using h)

theorem sentOne_returned (ok : Bool) : ∀ call ∈ (sentOne ok).sends, call.pc = .returned := by
  cases ok <;> decide +kernel

theorem stopReturned_path (ok : Bool) : (machine pairs).Path
    (fun s a => ((!ok || (s.gaveUp a).isNone) && noSend a) = true) (stopCalled ok)
    (stopReturned ok) :=
  Machine.path_of_isSome (by cases ok <;> decide +kernel) initial

theorem stopReturned_over (ok : Bool) : (stopReturned ok).stopped ∧
    (stopReturned ok).stops[(sentOne ok).stops.length]? = some .returned ∧
    0 < (stopReturned ok).sends.length := by
  unfold stopped
  cases ok <;> decide +kernel

theorem sent_confirmed_one : (stopReturned true).confirms.Confirmed (message 0) := by
  obtain ⟨hover, hret, hlen⟩ := stopReturned_over true
  refine sent_confirmed (sentOne_reach true) (sentOne_returned true)
    (t := stopCalled true) rfl ((stopReturned_path true).mono ?_) hover hret hlen
  intro s a h
  obtain ⟨hnone, hsend⟩ : s.gaveUp a = none ∧ noSend a = true := by simpa using h
  exact ⟨harmless_of_none hnone, hsend⟩

/-- The future fails after its `send` has returned, and `stop` swallows that. -/
theorem sent_lost : ∃ s t u, (machine pairs).Reach harmless s ∧
    (∀ call ∈ s.sends, call.pc = .returned) ∧ s.step pairs .callStop = some t ∧
    (machine pairs).Path (fun _ a => noSend a = true) t u ∧ u.stopped ∧
    u.stops[s.stops.length]? = some .returned ∧ 0 < u.sends.length ∧
    ¬ u.confirms.Confirmed (message 0) := by
  obtain ⟨hover, hret, hlen⟩ := stopReturned_over false
  refine ⟨sentOne false, stopCalled false, stopReturned false, sentOne_reach false,
    sentOne_returned false, rfl, (stopReturned_path false).mono fun s a h => by simpa using h,
    hover, hret, hlen, ?_⟩
  rw [Batching.confirmed_iff_mem]
  rintro ⟨x, hx, -, hs⟩
  have hall : ∀ x ∈ (stopReturned false).confirms.items, x.outcome = .failed := by decide +kernel
  rw [hall x hx] at hs
  cases hs

end AsyncSender

end MqAdapters
