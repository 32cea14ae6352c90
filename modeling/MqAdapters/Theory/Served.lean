import MqAdapters.Theory.Hosting
import MqAdapters.Theory.Polite

/-!
# A consumer and its broker

A `Host` takes deliveries and runs a crew of programs for each of them.  `H.served` puts
it in front of a `Broker`: both go on at their own pace, deliveries and frames are on
their way for any time, and channels are lost on either side at different times.

* A call of a crew may do something at the broker, its `effect`: send a frame, or publish
  something that the broker confirms.  A call that succeeds does it; one that raises may
  do it or not.
* `Tied` says what each side knows of the other.
* `exists_cause`: a frame that was done was sent by a call of some crew, and what that
  crew has called before with success has been done before.
* `polite_of_reach`: if the crews settle once, the host does, as long as a call that
  raises does nothing.
-/

namespace Theory

/-- What a call does at the broker. -/
inductive Effect (κ : Type)
  | send (ch : Nat) (f : Frame κ)
  /-- something is published, and confirmed -/
  | accept (y : κ)

/-- A machine that takes deliveries and hosts a crew for each of them. -/
structure Host (σ α D μ κ Op : Type) (Ans : Op → Type) (ε τ : Type) where
  machine : Machine σ α
  deliver : D → α
  /-- the step takes no delivery -/
  own : α → Bool
  /-- what a step says: a delivery, or a call of a crew -/
  told : σ → α → Option (D ⊕ (D × Event Op Ans))
  live : σ → Multiset (D × Program Op Ans ε Unit)
  code : D → τ → Program Op Ans ε Unit
  spawn : Event Op Ans → List τ
  root : τ
  left : Program Op Ans ε Unit → Prop
  /-- the message as it is delivered -/
  delivery : μ → Dispatch → D
  /-- the channel and the number of a delivery -/
  key : D → Nat × Nat
  /-- what a call does, and whether it succeeded -/
  effect : Event Op Ans → Option (Effect κ × Bool)
  /-- what it does in a state; `anyway` says whether one that raises does it -/
  does : σ → (anyway : Bool) → Event Op Ans → Option (Effect κ)
  /-- a consumer is registered on the channel -/
  consumes : σ → Nat → Bool
  someAnswer : ∀ o, Ans o
  live_init : live machine.init = 0
  change : ∀ s a t, machine.Reach (fun _ a => own a = true ∨ ∃ d, a = deliver d) s →
    (own a = true ∨ ∃ d, a = deliver d) → machine.step s a = some t →
    Change code spawn root left (live s) (live t) (told s a)
  told_deliver : ∀ s d, told s (deliver d) = some (.inl d)
  told_own : ∀ s a d, own a = true → told s a ≠ some (.inl d)
  key_delivery : ∀ m x, key (delivery m x) = (x.channel, x.tag)
  does_of_ok : ∀ s a d e w anyway, told s a = some (.inr (d, e)) → effect e = some (w, true) →
    does s anyway e = some w
  effect_of_does : ∀ s anyway e w, does s anyway e = some w →
    ∃ ok, effect e = some (w, ok) ∧ (ok || anyway) = true

/-- The host, what it has said, and the broker. -/
structure Served (σ D μ κ Op : Type) (Ans : Op → Type) where
  host : σ
  said : List (D ⊕ (D × Event Op Ans))
  broker : Broker μ κ

namespace Served

variable {σ α D μ κ Op : Type} {Ans : Op → Type} {ε τ : Type}

/-- The calls of the crews. -/
def log (s : Served σ D μ κ Op Ans) : List (D × Event Op Ans) := answered s.said

inductive Action (α μ : Type)
  /-- a step of the host; `anyway` as in `Host.does` -/
  | act (a : α) (anyway : Bool)
  | receive (ch : Nat)
  | put (m : μ)
  | dispatch (ch i : Nat)
  | process (ch : Nat)
  | close (ch : Nat)

/-- What the broker does itself. -/
def Action.brokers : Action α μ → Option (Broker.Action μ κ)
  | .put m => some (.put m)
  | .dispatch ch i => some (.dispatch ch i)
  | .process ch => some (.process ch)
  | .close ch => some (.close ch)
  | _ => none

/-- A call that raises does nothing. -/
def Action.quiet : Action α μ → Bool
  | .act _ anyway => !anyway
  | _ => true

/-- And the broker keeps its channels. -/
def Action.steady : Action α μ → Bool
  | .close _ => false
  | a => a.quiet

theorem quiet_of_steady {a : Action α μ} (h : a.steady = true) : a.quiet = true := by
  cases a with
  | act a anyway => exact h
  | _ => rfl

end Served

/-- The broker after the effect. -/
def Effect.on {μ κ : Type} (b : Broker μ κ) : Option (Effect κ) → Broker μ κ
  | none => b
  | some (.send ch f) => b.send ch f
  | some (.accept y) => b.accept y

namespace Host

open Served

variable {σ α D μ κ Op : Type} {Ans : Op → Type} {ε τ : Type}
  (H : Host σ α D μ κ Op Ans ε τ) (auto : Bool) (window : Option Nat)

/-- The call that a step makes. -/
def made (s : σ) (a : α) : Option (D × Event Op Ans) := (H.told s a).bind Sum.getRight?

/-- A step of the host, other than taking a delivery. -/
def act (s : Served σ D μ κ Op Ans) (a : α) (anyway : Bool) : Option (Served σ D μ κ Op Ans) :=
  if H.own a then
    (H.machine.step s.host a).map fun t =>
      { host := t
        said := s.said ++ (H.told s.host a).toList
        broker := Effect.on s.broker ((H.made s.host a).bind fun x => H.does s.host anyway x.2) }
  else none

/-- The host takes the next delivery of the channel. -/
def receive (s : Served σ D μ κ Op Ans) (ch : Nat) : Option (Served σ D μ κ Op Ans) :=
  (s.broker.take ch).bind fun (x, b) => (b.messages[x.message]?).bind fun m =>
    (H.machine.step s.host (H.deliver (H.delivery m x))).map fun t =>
      { host := t, said := s.said ++ [.inl (H.delivery m x)], broker := b }

/-- A step; the broker dispatches on a channel that has a consumer. -/
def step (s : Served σ D μ κ Op Ans) : Served.Action α μ → Option (Served σ D μ κ Op Ans)
  | .act a anyway => H.act s a anyway
  | .receive ch => H.receive s ch
  | .put m => some { s with broker := s.broker.put m }
  | .dispatch ch i =>
    if H.consumes s.host ch then
      (s.broker.step auto window (.dispatch ch i)).map fun b => { s with broker := b }
    else none
  | .process ch => (s.broker.process ch).map fun b => { s with broker := b }
  | .close ch => some { s with broker := s.broker.close ch }

def served : Machine (Served σ D μ κ Op Ans) (Served.Action α μ) where
  init := ⟨H.machine.init, [], Broker.initial⟩
  step := H.step auto window

variable {H auto window} {s t : Served σ D μ κ Op Ans}

/-! ## The two sides -/

theorem step_cases {a : Served.Action α μ} (ht : H.step auto window s a = some t) :
    (∃ b anyway h, a = .act b anyway ∧ H.own b = true ∧ H.machine.step s.host b = some h ∧
        t = ⟨h, s.said ++ (H.told s.host b).toList,
          Effect.on s.broker ((H.made s.host b).bind fun x => H.does s.host anyway x.2)⟩) ∨
      (∃ ch x b m h, a = .receive ch ∧ s.broker.take ch = some (x, b) ∧
        b.messages[x.message]? = some m ∧
        H.machine.step s.host (H.deliver (H.delivery m x)) = some h ∧
        t = ⟨h, s.said ++ [.inl (H.delivery m x)], b⟩) ∨
      (∃ c b, a.brokers = some c ∧ c.own = true ∧ s.broker.step auto window c = some b ∧
        t = { s with broker := b }) := by
  cases a with
  | act b anyway =>
    simp only [step, act] at ht
    split at ht
    · next hown =>
      obtain ⟨h, hh, rfl⟩ := Option.map_eq_some_iff.mp ht
      exact .inl ⟨b, anyway, h, rfl, hown, hh, rfl⟩
    · cases ht
  | receive ch =>
    obtain ⟨⟨x, b⟩, htake, ht⟩ := Option.bind_eq_some_iff.mp ht
    obtain ⟨m, hm, ht⟩ := Option.bind_eq_some_iff.mp ht
    obtain ⟨h, hh, rfl⟩ := Option.map_eq_some_iff.mp ht
    exact .inr (.inl ⟨ch, x, b, m, h, rfl, htake, hm, hh, rfl⟩)
  | put m => exact .inr (.inr ⟨.put m, _, rfl, rfl, rfl, (Option.some.inj ht).symm⟩)
  | dispatch ch i =>
    simp only [step] at ht
    split at ht
    · obtain ⟨b, hb, rfl⟩ := Option.map_eq_some_iff.mp ht
      exact .inr (.inr ⟨.dispatch ch i, b, rfl, rfl, hb, rfl⟩)
    · cases ht
  | process ch =>
    obtain ⟨b, hb, rfl⟩ := Option.map_eq_some_iff.mp ht
    exact .inr (.inr ⟨.process ch, b, rfl, rfl, hb, rfl⟩)
  | close ch => exact .inr (.inr ⟨.close ch, _, rfl, rfl, rfl, (Option.some.inj ht).symm⟩)

theorem sent_on (b : Broker μ κ) (w : Option (Effect κ)) :
    b.sent <+: (Effect.on b w).sent ∧ b.published <+: (Effect.on b w).published ∧
      (Effect.on b w).messages = b.messages ∧ (Effect.on b w).dispatched = b.dispatched ∧
      (Effect.on b w).taken = b.taken := by
  match w with
  | none => exact ⟨List.prefix_refl _, List.prefix_refl _, rfl, rfl, rfl⟩
  | some (.send ch f) => exact ⟨List.prefix_append _ _, List.prefix_refl _, rfl, rfl, rfl⟩
  | some (.accept y) => exact ⟨List.prefix_refl _, List.prefix_append _ _, rfl, rfl, rfl⟩

/-- Messages are only added. -/
theorem messages_step {a : Served.Action α μ} (ht : H.step auto window s a = some t) :
    s.broker.messages <+: t.broker.messages := by
  rcases step_cases ht with ⟨b, anyway, h, -, -, -, rfl⟩ | ⟨ch, x, b, m, h, -, htake, -, -, rfl⟩ |
    ⟨c, b, -, hown, hb, rfl⟩
  · rw [show (Effect.on s.broker _).messages = s.broker.messages from (sent_on _ _).2.2.1]
  · obtain ⟨-, -, rfl⟩ := Broker.take_spec htake
    exact List.prefix_refl _
  · exact (Broker.own_step hown hb).messages

/-- The step is one of the host, or takes a delivery. -/
def Fits (H : Host σ α D μ κ Op Ans ε τ) (a : α) : Prop := H.own a = true ∨ ∃ d, a = H.deliver d

section

variable {c : Served σ D μ κ Op Ans → Served.Action α μ → Prop}

/-- The host's part of a run is a run of the host. -/
theorem host_of_reach (h : (H.served auto window).Reach c s) :
    (H.machine.logged H.told).Reach (fun _ a => H.Fits a) (s.host, s.said) := by
  refine Machine.Path.invariant (P := fun s : Served σ D μ κ Op Ans =>
    (H.machine.logged H.told).Reach (fun _ a => H.Fits a) (s.host, s.said)) h
    Machine.Reach.init ?_
  intro s a t _ hs ht
  rcases step_cases ht with ⟨b, anyway, h, -, hown, hh, rfl⟩ | ⟨ch, x, b, m, h, -, -, -, hh, rfl⟩ |
    ⟨_, b, -, -, -, rfl⟩
  · exact hs.snoc (a := b) (.inl hown) (by simp only [Machine.logged, hh, Option.map_some])
  · exact hs.snoc (a := H.deliver (H.delivery m x)) (.inr ⟨_, rfl⟩)
      (by simp only [Machine.logged, hh, Option.map_some, H.told_deliver, Option.toList_some])
  · exact hs

theorem broker_on {b : Broker μ κ} (h : (Broker.machine μ κ auto window).Reach Machine.anyStep b)
    (w : Option (Effect κ)) :
    (Broker.machine μ κ auto window).Reach Machine.anyStep (Effect.on b w) := by
  match w with
  | none => exact h
  | some (.send ch f) => exact h.snoc (a := .send ch f) trivial rfl
  | some (.accept y) => exact h.snoc (a := .accept y) trivial rfl

/-- The broker's part is a run of the broker. -/
theorem broker_of_reach (h : (H.served auto window).Reach c s) :
    (Broker.machine μ κ auto window).Reach Machine.anyStep s.broker := by
  refine Machine.Path.invariant (P := fun s : Served σ D μ κ Op Ans =>
    (Broker.machine μ κ auto window).Reach Machine.anyStep s.broker) h Machine.Reach.init ?_
  intro s a t _ hs ht
  rcases step_cases ht with ⟨b, anyway, h, -, -, -, rfl⟩ | ⟨ch, x, b, m, h, -, htake, -, -, rfl⟩ |
    ⟨c, b, -, -, hb, rfl⟩
  · exact broker_on hs _
  · exact hs.snoc (a := .take ch) trivial
      (by simp only [Broker.machine, Broker.step, htake, Option.map_some])
  · exact hs.snoc (a := c) trivial hb

theorem sound_of_reach (h : (H.served auto window).Reach c s) : s.broker.Sound :=
  Broker.sound_of_reach (broker_of_reach h)

theorem exists_crews (h : (H.served auto window).Reach c s) :
    ∃ f, (crews H.code H.spawn H.root).Reach
        (Machine.familyStep fun _ => answers fun _ => True) f.1 ∧
      Interleaves f ∧ Runs H.left H.live (s.host, s.said) f := by
  obtain ⟨f, hf, hruns⟩ := exists_family (P := fun _ => True) (c := fun _ a => H.Fits a)
    H.someAnswer H.live_init
    (fun s a t hs hfits ht => ⟨H.change s a t hs hfits ht, fun _ _ => trivial⟩) (host_of_reach h)
  exact ⟨f, hf.of_logged, trace_of_log hf, hruns⟩

/-- What a crew did before a call of the log is in the log as well. -/
theorem exists_crew_of_log (h : (H.served auto window).Reach c s) {p q : List (D × Event Op Ans)}
    {d : D} {e : Event Op Ans} (hlog : s.log = p ++ (d, e) :: q) :
    ∃ (w : Crew Op Ans ε τ) (past rest : List (Event Op Ans)),
      (crew (H.code d) H.spawn H.root).Reach (answers fun _ => True) w ∧
      w.trace = past ++ e :: rest ∧ ∀ e' ∈ past, (d, e') ∈ p := by
  obtain ⟨f, hf, hinterleaves, hruns⟩ := exists_crews h
  obtain ⟨n, w, past, rest, hn, htrace, hpast⟩ := hinterleaves.split (hruns.log.trans hlog)
  exact ⟨w, past, rest, Machine.family_member hf _ (List.mem_of_getElem? hn), htrace, hpast⟩

end

/-! ## What each side knows of the other -/

/-- What was sent are the calls that wrote, in their order, and what succeeded was done. -/
structure Told (H : Host σ α D μ κ Op Ans ε τ) (log : List (D × Event Op Ans))
    (b : Broker μ κ) : Prop where
  answered : ∀ x ∈ log, ∀ ch f, H.effect x.2 = some (.send ch f, true) → (ch, f) ∈ b.sent
  accepted : ∀ x ∈ log, ∀ y, H.effect x.2 = some (.accept y, true) → y ∈ b.published
  caused : ∀ p ch f q, b.sent = p ++ (ch, f) :: q →
    ∃ past x rest ok, log = past ++ x :: rest ∧ H.effect x.2 = some (.send ch f, ok) ∧
      ∀ y ∈ past, ∀ ch' f', H.effect y.2 = some (.send ch' f', true) → (ch', f') ∈ p

/-- What has been sent, and what is published for good. -/
theorem Told.mono {log : List (D × Event Op Ans)} {b c : Broker μ κ} (h : H.Told log b)
    (hsent : c.sent = b.sent) (hpublished : b.published <+: c.published) : H.Told log c :=
  ⟨hsent ▸ h.answered, fun x hx y hy => hpublished.subset (h.accepted x hx y hy),
    hsent ▸ h.caused⟩

theorem Told.call {log : List (D × Event Op Ans)} {b : Broker μ κ} {x : D × Event Op Ans}
    {w : Option (Effect κ)} (h : H.Told log b)
    (hok : ∀ v, H.effect x.2 = some (v, true) → w = some v)
    (hw : ∀ v, w = some v → ∃ ok, H.effect x.2 = some (v, ok)) :
    H.Told (log ++ [x]) (Effect.on b w) := by
  obtain ⟨hsent, hpublished, -⟩ := sent_on b w
  refine ⟨fun y hy ch f hf => ?_, fun y hy z hz => ?_, fun p ch f q hp => ?_⟩
  · rcases List.mem_append.mp hy with hy | hy
    · exact hsent.subset (h.answered y hy ch f hf)
    · obtain rfl := List.mem_singleton.mp hy
      rw [hok _ hf]
      exact List.mem_append_right _ (List.mem_singleton_self _)
  · rcases List.mem_append.mp hy with hy | hy
    · exact hpublished.subset (h.accepted y hy z hz)
    · obtain rfl := List.mem_singleton.mp hy
      rw [hok _ hz]
      exact List.mem_append_right _ (List.mem_singleton_self _)
  · have hold : ∀ q', b.sent = p ++ (ch, f) :: q' → ∃ past x' rest ok,
        log ++ [x] = past ++ x' :: rest ∧ H.effect x'.2 = some (.send ch f, ok) ∧
          ∀ y ∈ past, ∀ ch' f', H.effect y.2 = some (.send ch' f', true) → (ch', f') ∈ p := by
      intro q' hq'
      obtain ⟨past, x', rest, ok, rfl, hx, hpast⟩ := h.caused p ch f q' hq'
      exact ⟨past, x', rest ++ [x], ok, by simp, hx, hpast⟩
    match w with
    | none => exact hold q hp
    | some (.accept y) => exact hold q hp
    | some (.send ch' f') =>
      rcases split_concat hp with ⟨rfl, heq⟩ | ⟨q', hq'⟩
      · obtain ⟨rfl, rfl⟩ := Prod.mk.inj heq
        obtain ⟨ok, hf⟩ := hw _ rfl
        exact ⟨log, x, [], ok, rfl, hf, h.answered⟩
      · exact hold q' hq'

/-- The delivery was dispatched. -/
def Known (H : Host σ α D μ κ Op Ans ε τ) (b : Broker μ κ) (d : D) : Prop :=
  ∃ x ∈ b.dispatched, ∃ m, b.messages[x.message]? = some m ∧ d = H.delivery m x

theorem Known.mono {b c : Broker μ κ} {d : D} (h : H.Known b d) (hm : b.messages <+: c.messages)
    (hd : b.dispatched <+: c.dispatched) : H.Known c d := by
  obtain ⟨x, hx, m, hxm, rfl⟩ := h
  obtain ⟨hlt, rfl⟩ := List.getElem?_eq_some_iff.mp hxm
  exact ⟨x, hd.subset hx, _, List.prefix_iff_getElem?.mp hm _ hlt, rfl⟩

/-- Each side knows the other. -/
structure Tied (H : Host σ α D μ κ Op Ans ε τ) (s : Served σ D μ κ Op Ans) : Prop where
  told : H.Told s.log s.broker
  live : ∀ x ∈ H.live s.host, H.Known s.broker x.1
  logged : ∀ x ∈ s.log, H.Known s.broker x.1
  taken : (arrived s.said).map H.key = s.broker.taken.map fun x => (x.channel, x.tag)

theorem made_eq_some {h : σ} {b : α} {x : D × Event Op Ans} :
    H.made h b = some x ↔ H.told h b = some (.inr x) := by
  unfold made
  rcases H.told h b with _ | d | y
  all_goals simp

/-- What the host has said after a step of its own. -/
theorem said_own {h : σ} {b : α} (hown : H.own b = true) (said : List (D ⊕ (D × Event Op Ans))) :
    answered (said ++ (H.told h b).toList) = answered said ++ (H.made h b).toList ∧
      arrived (said ++ (H.told h b).toList) = arrived said := by
  rw [answered_append, arrived_append]
  unfold made
  rcases htold : H.told h b with _ | d | y
  · simp
  · exact absurd htold (H.told_own h b d hown)
  · simp

/-- A step of the host on its own. -/
theorem tied_act {b : α} {anyway : Bool} {h : σ} (hs : H.machine.Reach (fun _ a => H.Fits a) s.host)
    (ht : H.Tied s) (hown : H.own b = true) (hh : H.machine.step s.host b = some h) :
    H.Tied ⟨h, s.said ++ (H.told s.host b).toList,
      Effect.on s.broker ((H.made s.host b).bind fun x => H.does s.host anyway x.2)⟩ := by
  have hchange := H.change _ _ _ hs (.inl hown) hh
  obtain ⟨hlog, harrived⟩ := said_own hown s.said (h := s.host)
  obtain ⟨-, -, hmessages, hdispatched, htaken⟩ :=
    sent_on s.broker ((H.made s.host b).bind fun x => H.does s.host anyway x.2)
  have hknown : ∀ {d}, H.Known s.broker d → H.Known (Effect.on s.broker
      ((H.made s.host b).bind fun x => H.does s.host anyway x.2)) d := fun hd =>
    hd.mono (by rw [hmessages]) (by rw [hdispatched])
  refine ⟨?_, fun x hx => ?_, fun x hx => ?_, ?_⟩
  · rw [log, hlog]
    cases hmade : H.made s.host b with
    | none =>
      rw [Option.toList_none, List.append_nil]
      exact ht.told
    | some x =>
      exact ht.told.call
        (fun v hv => H.does_of_ok _ _ _ _ v anyway (made_eq_some.mp hmade) hv)
        fun v hv => (H.effect_of_does _ _ _ v hv).imp fun _ => And.left
  · rcases hchange.datum hx with ⟨y, hy, heq⟩ | harrives
    · exact heq ▸ hknown (ht.live y hy)
    · exact absurd harrives (H.told_own _ _ _ hown)
  · rw [log, hlog] at hx
    rcases List.mem_append.mp hx with hx | hx
    · exact hknown (ht.logged x hx)
    · rw [made_eq_some.mp (Option.mem_toList.mp hx)] at hchange
      obtain ⟨y, hy, heq⟩ := hchange.called
      exact heq ▸ hknown (ht.live y hy)
  · rw [htaken, ← ht.taken, harrived]

theorem tied_step {a : Served.Action α μ} (hreach : H.machine.Reach (fun _ a => H.Fits a) s.host)
    (hs : s.broker.Sound) (h : H.Tied s) (ht : H.step auto window s a = some t) : H.Tied t := by
  rcases step_cases ht with ⟨b, anyway, l, -, hown, hl, rfl⟩ |
    ⟨ch, x, b, m, l, -, htake, hm, hl, rfl⟩ | ⟨c, b, -, hown, hb, rfl⟩
  · exact tied_act hreach h hown hl
  · obtain ⟨hx, -, rfl⟩ := Broker.take_spec htake
    have hlog : answered (s.said ++ [.inl (H.delivery m x)]) = s.log := by
      simp [log]
    have hchange := H.change _ _ _ hreach (.inr ⟨_, rfl⟩) hl
    rw [H.told_deliver] at hchange
    refine ⟨?_, fun y hy => ?_, fun y hy => ?_, ?_⟩
    · rw [log, hlog]
      exact h.told.mono rfl (List.prefix_refl _)
    · rcases hchange.datum hy with ⟨z, hz, heq⟩ | harrives
      · exact heq ▸ h.live z hz
      · exact ⟨x, hs.dispatched_of_transit hx, m, hm,
          (Sum.inl.inj (Option.some.inj harrives)).symm⟩
    · rw [log, hlog] at hy
      exact h.logged y hy
    · simp only [arrived_append, arrived_inl, List.map_append, h.taken, List.map_cons,
        List.map_nil, H.key_delivery]
  · have hgrows := Broker.own_step hown hb
    exact ⟨h.told.mono hgrows.sent hgrows.published,
      fun x hx => (h.live x hx).mono hgrows.messages hgrows.dispatched,
      fun x hx => (h.logged x hx).mono hgrows.messages hgrows.dispatched, hgrows.taken ▸ h.taken⟩

section

variable {c : Served σ D μ κ Op Ans → Served.Action α μ → Prop}

theorem tied_of_reach (h : (H.served auto window).Reach c s) : H.Tied s := by
  refine Machine.Reach.invariant h ?_ fun s a t hs _ ih ht => tied_step
    (Machine.Reach.of_logged (c := fun _ a => H.Fits a) (host_of_reach hs)) (sound_of_reach hs)
    ih ht
  refine ⟨⟨fun _ h => absurd h List.not_mem_nil, fun _ h => absurd h List.not_mem_nil,
    fun p _ _ _ h => by cases p <;> cases h⟩, fun x hx => ?_,
    fun _ h => absurd h List.not_mem_nil, rfl⟩
  rw [show H.live (H.served auto window).init.host = 0 from H.live_init] at hx
  exact absurd hx (Multiset.notMem_zero _)

/-- A delivery that is known by its key is that of the message. -/
theorem eq_delivery (hs : s.broker.Sound) {d : D} {x : Dispatch} (hknown : H.Known s.broker d)
    (hx : x ∈ s.broker.dispatched) (hkey : H.key d = (x.channel, x.tag)) :
    ∃ m, s.broker.messages[x.message]? = some m ∧ d = H.delivery m x := by
  obtain ⟨y, hy, m, hm, rfl⟩ := hknown
  rw [H.key_delivery] at hkey
  obtain ⟨hch, htag⟩ := Prod.mk.inj hkey
  obtain rfl := hs.toNumbered.unique hy hx hch htag
  exact ⟨m, hm, rfl⟩

/-- **A frame that was done was written for a delivery**, and what was called for it before
has been called; what was published before is published. -/
theorem exists_cause (h : (H.served auto window).Reach c s) {ch : Nat} {f : Frame κ}
    (hf : (ch, f) ∈ s.broker.done) :
    ∃ (d : D) (e : Event Op Ans) (ok : Bool) (w : Crew Op Ans ε τ)
        (past rest : List (Event Op Ans)),
      (d, e) ∈ s.log ∧ H.effect e = some (.send ch f, ok) ∧
      (crew (H.code d) H.spawn H.root).Reach (answers fun _ => True) w ∧
      w.trace = past ++ e :: rest ∧ (∀ e' ∈ past, (d, e') ∈ s.log) ∧
      ∀ e' ∈ past, ∀ y, H.effect e' = some (.send ch (.publish y), true) ∨
        H.effect e' = some (.accept y, true) → y ∈ s.broker.published := by
  obtain ⟨p, q, hsent, hpublished⟩ := (sound_of_reach h).before hf
  have htold := (tied_of_reach h).told
  obtain ⟨earlier, ⟨d, e⟩, later, ok, hlog, heffect, hearlier⟩ := htold.caused p ch f q hsent
  obtain ⟨w, past, rest, hreach, htrace, hpast⟩ := exists_crew_of_log h hlog
  have hmem : ∀ e' ∈ past, (d, e') ∈ s.log := fun e' he' => by
    rw [hlog]
    exact List.mem_append_left _ (hpast e' he')
  refine ⟨d, e, ok, w, past, rest, by rw [hlog]; simp, heffect, hreach, htrace, hmem,
    fun e' he' y hy => ?_⟩
  rcases hy with hy | hy
  · exact hpublished y (hearlier _ (hpast e' he') ch _ hy)
  · exact htold.accepted _ (hmem e' he') y hy

end

/-! ## Hosts that settle once -/

/-- The frame that a call sends if it succeeds. -/
def sentBy (H : Host σ α D μ κ Op Ans ε τ) (e : Event Op Ans) : Option (Nat × Frame κ) :=
  match H.effect e with
  | some (.send ch f, true) => some (ch, f)
  | _ => none

/-- The call settles that number of the channel. -/
def settlesAt (H : Host σ α D μ κ Op Ans ε τ) (ch tag : Nat) (e : Event Op Ans) : Bool :=
  (H.sentBy e).any (Broker.settles ch tag)

/-- Each crew settles its own delivery, without `auto`, and once. -/
structure SettlesOnce (H : Host σ α D μ κ Op Ans ε τ) (auto : Bool) : Prop where
  once : ∀ d w, (crew (H.code d) H.spawn H.root).Reach (answers fun _ => True) w →
    ∀ ch tag, w.trace.countP (H.settlesAt ch tag) ≤ 1
  own : ∀ d w, (crew (H.code d) H.spawn H.root).Reach (answers fun _ => True) w →
    ∀ e ∈ w.trace, ∀ ch tag, H.settlesAt ch tag e = true → H.key d = (ch, tag) ∧ auto = false

theorem sentBy_iff {e : Event Op Ans} {ch : Nat} {f : Frame κ} :
    H.sentBy e = some (ch, f) ↔ H.effect e = some (.send ch f, true) := by
  unfold sentBy
  rcases H.effect e with _ | ⟨_ | _, _ | _⟩
  all_goals simp

/-- What a call does if one that raises does nothing. -/
theorem does_quiet {h : σ} {b : α} {x : D × Event Op Ans} (hmade : H.made h b = some x) :
    (Effect.on s.broker (H.does h false x.2)).sent = s.broker.sent ++ (H.sentBy x.2).toList := by
  cases hdoes : H.does h false x.2 with
  | none =>
    have hnone : H.sentBy x.2 = none := Option.eq_none_iff_forall_ne_some.mpr fun ⟨ch, f⟩ hf => by
      rw [H.does_of_ok _ _ _ _ _ false (made_eq_some.mp hmade) (sentBy_iff.mp hf)] at hdoes
      cases hdoes
    rw [hnone]
    exact (List.append_nil _).symm
  | some w =>
    obtain ⟨ok, heffect, hok⟩ := H.effect_of_does _ _ _ w hdoes
    rw [Bool.or_false] at hok
    subst hok
    cases w with
    | send ch f =>
      rw [sentBy_iff.mpr heffect]
      rfl
    | accept y =>
      have hnone : H.sentBy x.2 = none := by simp [sentBy, heffect]
      rw [hnone]
      exact (List.append_nil _).symm

/-- **What was sent are the calls that succeeded.** -/
theorem sent_of_reach (h : (H.served auto window).Reach (fun _ a => a.quiet = true) s) :
    s.broker.sent = s.log.filterMap fun x => H.sentBy x.2 := by
  refine Machine.Path.invariant (P := fun s : Served σ D μ κ Op Ans =>
    s.broker.sent = s.log.filterMap fun x => H.sentBy x.2) h rfl fun s a t hquiet hs ht => ?_
  rcases step_cases ht with ⟨b, anyway, l, rfl, hown, -, rfl⟩ |
    ⟨ch, x, b, m, l, -, htake, -, -, rfl⟩ | ⟨c, b, -, hown, hb, rfl⟩
  · obtain rfl : anyway = false := by simpa [Action.quiet] using hquiet
    rw [log, (said_own hown s.said).1, List.filterMap_append]
    cases hmade : H.made s.host b with
    | none =>
      rw [Option.toList_none, List.filterMap_nil, List.append_nil]
      exact hs
    | some x =>
      rw [Option.bind_some, does_quiet hmade, hs, Option.toList_some, List.filterMap_cons,
        List.filterMap_nil]
      cases H.sentBy x.2 <;> rfl
  · obtain ⟨-, -, rfl⟩ := Broker.take_spec htake
    rw [log, answered_append, answered_inl, List.append_nil]
    exact hs
  · exact (Broker.own_step hown hb).sent.trans hs

/-- Two members with one key are one. -/
theorem eq_of_key {X Y : Type} {l : List X} {key : X → Y} (h : (l.map key).Nodup) {i j : Nat}
    {x y : X} (hi : l[i]? = some x) (hj : l[j]? = some y) (heq : key x = key y) : i = j := by
  have hlt : i < (l.map key).length := by
    rw [List.length_map]
    exact (List.getElem?_eq_some_iff.mp hi).1
  exact (List.getElem?_inj hlt h).mp (by simp [hi, hj, heq])

section

variable {c : Served σ D μ κ Op Ans → Served.Action α μ → Prop}

/-- **What the host has called settles each delivery once at most.** -/
theorem settled_log_le_one (hH : H.SettlesOnce auto) (h : (H.served auto window).Reach c s)
    (ch tag : Nat) : s.log.countP (fun x => H.settlesAt ch tag x.2) ≤ 1 := by
  obtain ⟨⟨fam, owned⟩, hreach, hinterleaves, hdata, hlog, -⟩ := exists_crews h
  have hmember := Machine.family_member hreach
  have hkeys : (fam.map fun p => H.key p.1).Nodup := by
    have htaken := (tied_of_reach h).taken
    rw [← hdata, List.map_map] at htaken
    exact htaken ▸ (sound_of_reach h).taken_nodup
  have howner : ∀ x ∈ owned, ∃ w, fam[x.1]? = some (x.2.1, w) ∧
      (H.settlesAt ch tag x.2.2 = true → H.key x.2.1 = (ch, tag)) := by
    intro x hx
    obtain ⟨w, hn⟩ := hinterleaves.owners x hx
    refine ⟨w, hn, fun hsettles => (hH.own _ _ (hmember _ (List.mem_of_getElem? hn)) _ ?_ _ _
      hsettles).1⟩
    rw [← hinterleaves.traces x.1 x.2.1 w hn]
    exact List.mem_map.mpr ⟨x, List.mem_filter.mpr ⟨hx, by simp⟩, rfl⟩
  rw [show s.log = owned.map Prod.snd from hlog.symm, List.countP_map]
  by_cases hnone : owned.countP (fun x => H.settlesAt ch tag x.2.2) = 0
  · exact hnone.trans_le (Nat.zero_le 1)
  · -- whatever else settles it belongs to the same crew
    obtain ⟨x, hx, hsettles⟩ := List.countP_pos_iff.mp (Nat.pos_of_ne_zero hnone)
    obtain ⟨w, hn, hkey⟩ := howner x hx
    have hsub : owned.countP (fun y => H.settlesAt ch tag y.2.2) ≤
        (owned.filter (·.1 == x.1)).countP fun y => H.settlesAt ch tag y.2.2 := by
      rw [List.countP_filter]
      refine List.countP_mono_left fun y hy hsettles' => ?_
      obtain ⟨w', hn', hkey'⟩ := howner y hy
      have heq : y.1 = x.1 :=
        eq_of_key hkeys hn' hn ((hkey' hsettles').trans (hkey hsettles).symm)
      simp [hsettles', heq]
    have hcount : (owned.filter (·.1 == x.1)).countP (fun y => H.settlesAt ch tag y.2.2) =
        w.trace.countP (H.settlesAt ch tag) := by
      rw [← hinterleaves.traces x.1 x.2.1 w hn, List.countP_map]
      rfl
    exact hsub.trans (hcount.trans_le
      (hH.once _ _ (hmember _ (List.mem_of_getElem? hn)) ch tag))

end

/-- **The host is polite** as long as a call that raises does nothing. -/
theorem polite_of_reach (hH : H.SettlesOnce auto)
    (h : (H.served auto window).Reach (fun _ a => a.quiet = true) s) : s.broker.Polite auto where
  once ch tag := by
    rw [sent_of_reach h, List.countP_filterMap]
    refine le_of_eq_of_le (List.countP_congr fun x _ => ?_) (settled_log_le_one hH h ch tag)
    unfold settlesAt
    cases H.sentBy x.2 <;> simp
  known f hf tag htag := by
    rw [sent_of_reach h] at hf
    obtain ⟨⟨d, e⟩, hlog, hwrote⟩ := List.mem_filterMap.mp hf
    have hsettles : H.settlesAt f.1 tag e = true :=
      (Option.any_eq_true _ _).mpr ⟨f, hwrote, Broker.settles_iff.mpr ⟨rfl, htag⟩⟩
    obtain ⟨p, q, hsplit⟩ := List.append_of_mem hlog
    obtain ⟨w, past, rest, hreach, htrace, -⟩ := exists_crew_of_log h hsplit
    obtain ⟨hkey, hauto⟩ := hH.own d w hreach e (by rw [htrace]; simp) f.1 tag hsettles
    obtain ⟨x, hx, m, -, rfl⟩ := (tied_of_reach h).logged _ hlog
    rw [H.key_delivery] at hkey
    obtain ⟨hch, htag'⟩ := Prod.mk.inj hkey
    exact ⟨hauto, x, hx, hch, htag'⟩

/-- **No step but the broker's own `close` closes a channel.** -/
theorem closed_of_served (hH : H.SettlesOnce auto)
    (h : (H.served auto window).Reach (fun _ a => a.quiet = true) s) {a : Served.Action α μ}
    (ha : ∀ ch, a ≠ .close ch) (ht : H.step auto window s a = some t) :
    t.broker.closed = s.broker.closed := by
  rcases step_cases ht with ⟨b, anyway, l, -, -, -, rfl⟩ |
    ⟨ch, x, b, m, l, -, htake, -, -, rfl⟩ | ⟨c, b, hbrokers, -, hb, rfl⟩
  · dsimp only
    rcases (H.made s.host b).bind fun x => H.does s.host anyway x.2 with _ | _ | _
    all_goals rfl
  · obtain ⟨-, -, rfl⟩ := Broker.take_spec htake
    rfl
  · have hclose : ∀ ch, c ≠ .close ch := by
      rintro ch rfl
      cases a <;> cases hbrokers
      exact ha ch rfl
    exact Broker.closed_of_step (sound_of_reach h) (Broker.pending_of_reach (broker_of_reach h))
      (polite_of_reach hH h) hclose hb

/-- In a steady run no channel is closed. -/
theorem closed_of_steady (hH : H.SettlesOnce auto)
    (h : (H.served auto window).Reach (fun _ a => a.steady = true) s) : s.broker.closed = [] := by
  refine Machine.Reach.invariant (P := fun s : Served σ D μ κ Op Ans => s.broker.closed = []) h rfl
    fun s a t hs hsteady ih ht => ?_
  refine (closed_of_served hH (hs.mono fun _ _ => quiet_of_steady) ?_ ht).trans ih
  rintro ch rfl
  cases hsteady

end Host

end Theory
