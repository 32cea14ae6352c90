import MqAdapters.Theory.Broker

/-!
# A consumer that settles once

A frame about a number that is not unsettled closes its channel.  A `Polite` consumer
settles each dispatch once at most, and nothing else, and its broker never closes a
channel for that.

* `Pending`: what was dispatched is unsettled until the frame that settles it is done.
* `closed_of_process`: so a frame that is processed finds what it settles.
-/

namespace Theory

universe u v

/-- The number that a frame settles. -/
def Frame.settled {κ : Type v} : Frame κ → Option Nat
  | .ack tag => some tag
  | .nack tag _ => some tag
  | .publish _ => none

namespace Broker

variable {μ : Type u} {κ : Type v}

/-- The frame settles that number of the channel. -/
def settles (ch tag : Nat) (f : Nat × Frame κ) : Bool := f.1 == ch && f.2.settled == some tag

/-- The consumer settles what was dispatched to be settled, and once. -/
structure Polite (auto : Bool) (b : Broker μ κ) : Prop where
  once : ∀ ch tag, b.sent.countP (settles ch tag) ≤ 1
  known : ∀ f ∈ b.sent, ∀ tag, f.2.settled = some tag →
    auto = false ∧ ∃ x ∈ b.dispatched, x.channel = f.1 ∧ x.tag = tag

/-- What was dispatched on an open channel is unsettled until its frame is done. -/
def Pending (auto : Bool) (b : Broker μ κ) : Prop :=
  ∀ x ∈ b.dispatched, x.channel ∉ b.closed →
    x ∈ b.unsettled ∨ auto = true ∨ b.done.any (settles x.channel x.tag) = true

section

variable {b c : Broker μ κ} {x : Dispatch} {ch tag : Nat} {auto : Bool} {window : Option Nat}

theorem settles_iff {f : Nat × Frame κ} :
    settles ch tag f = true ↔ f.1 = ch ∧ f.2.settled = some tag := by
  simp [settles]

theorem pending_close (hb : b.Pending auto) (ch : Nat) : (b.close ch).Pending auto := by
  intro x hx hopen
  have hne : x.channel ≠ ch := fun heq =>
    hopen (heq ▸ List.mem_append_right _ (List.mem_singleton_self _))
  refine (hb x hx fun h => hopen (List.mem_append_left _ h)).imp_left fun hx => ?_
  exact List.mem_filter.mpr ⟨hx, by simpa using hne⟩

/-- What is no longer unsettled has its frame done. -/
theorem Pending.erase (hb : b.Pending auto) (hdone : b.done.any (settles x.channel x.tag) = true)
    (hdispatched : c.dispatched = b.dispatched) (hclosed : c.closed = b.closed)
    (hunsettled : c.unsettled = b.unsettled.erase x) (hkept : c.done = b.done) :
    c.Pending auto := by
  intro y hy hopen
  rw [hdispatched] at hy
  rw [hclosed] at hopen
  rw [hunsettled, hkept]
  by_cases heq : y = x
  · exact .inr (.inr (heq ▸ hdone))
  · exact (hb y hy hopen).imp_left fun hy => (List.mem_erase_of_ne heq).mpr hy

/-- What is found under the number has just been settled. -/
theorem any_of_lookup {f : Frame κ} (hx : b.lookup ch tag = some x) (hf : f.settled = some tag)
    (hdone : (ch, f) ∈ b.done) : b.done.any (settles x.channel x.tag) = true := by
  obtain ⟨-, rfl, rfl⟩ := lookup_spec hx
  exact List.any_eq_true.mpr ⟨_, hdone, settles_iff.mpr ⟨rfl, hf⟩⟩

theorem pending_apply (hb : b.Pending auto) {f : Frame κ} (hdone : (ch, f) ∈ b.done) :
    (b.apply ch f).Pending auto := by
  cases f with
  | publish y => exact hb
  | ack tag =>
    simp only [apply]
    split
    · next x hx => exact hb.erase (any_of_lookup hx rfl hdone) rfl rfl rfl rfl
    · exact pending_close hb ch
  | nack tag requeue =>
    simp only [apply]
    split
    · next x hx =>
      split
      · exact hb.erase (any_of_lookup hx rfl hdone) rfl rfl rfl rfl
      · exact hb.erase (any_of_lookup hx rfl hdone) rfl rfl rfl rfl
    · exact pending_close hb ch

theorem pending_step {a : Action μ κ} (hb : b.Pending auto) (h : b.step auto window a = some c) :
    c.Pending auto := by
  cases a with
  | put m => exact Option.some.inj h ▸ hb
  | send ch f => exact Option.some.inj h ▸ hb
  | accept y => exact Option.some.inj h ▸ hb
  | close ch => exact Option.some.inj h ▸ pending_close hb ch
  | take ch =>
    obtain ⟨⟨x, c⟩, htake, rfl⟩ := Option.map_eq_some_iff.mp h
    obtain ⟨-, -, rfl⟩ := take_spec htake
    exact hb
  | dispatch ch i =>
    obtain ⟨⟨x, c⟩, hc, rfl⟩ := Option.map_eq_some_iff.mp h
    obtain ⟨m, -, hc⟩ := Option.bind_eq_some_iff.mp hc
    split at hc <;> cases hc
    cases auto with
    | true => exact fun _ _ _ => .inr (.inl rfl)
    | false =>
      intro x hx hopen
      rcases List.mem_append.mp hx with hx | hx
      · exact (hb x hx hopen).imp_left fun hx => List.mem_append_left _ hx
      · exact .inl (List.mem_append_right _ hx)
  | process ch =>
    obtain ⟨f, -, rfl⟩ := Option.map_eq_some_iff.mp h
    dsimp only
    split
    · exact hb
    · refine pending_apply (fun x hx hopen => ?_)
        (List.mem_append_right _ (List.mem_singleton_self _))
      refine (hb x hx hopen).imp_right (Or.imp_right fun hany => ?_)
      rw [List.any_append, hany, Bool.true_or]

theorem pending_of_reach {d : Broker μ κ → Action μ κ → Prop}
    (h : (machine μ κ auto window).Reach d b) : b.Pending auto :=
  Machine.Path.invariant h (fun _ hx => absurd hx List.not_mem_nil) fun _ _ _ _ hb h =>
    pending_step hb h

/-- A frame on the wire of an open channel has not been done, so what it settles is found. -/
theorem exists_lookup (hs : b.Sound) (hb : b.Pending auto) (hpolite : b.Polite auto)
    (hopen : ch ∉ b.closed) {f : Frame κ} (hf : (ch, f) ∈ b.wire) (htag : f.settled = some tag) :
    ∃ x, b.lookup ch tag = some x := by
  obtain ⟨rest, hsent, hwire⟩ := hs.ordered ch
  rw [hwire hopen] at hsent
  have hcount : ∀ l : List (Nat × Frame κ),
      l.countP (settles ch tag) = (framesOf l ch).countP (settles ch tag) := by
    intro l
    rw [framesOf, List.countP_filter]
    refine List.countP_congr fun g _ => ?_
    simp only [Bool.and_eq_true, settles_iff, beq_iff_eq]
    exact ⟨fun h => ⟨h, h.1⟩, And.left⟩
  have hone : 0 < b.wire.countP (settles ch tag) :=
    List.countP_pos_iff.mpr ⟨_, hf, settles_iff.mpr ⟨rfl, htag⟩⟩
  have hsum : b.sent.countP (settles ch tag) =
      b.done.countP (settles ch tag) + b.wire.countP (settles ch tag) := by
    rw [hcount, hsent, List.countP_append, ← hcount, ← hcount]
  have hnone : b.done.countP (settles ch tag) = 0 := by
    have := hpolite.once ch tag
    omega
  have hmem : (ch, f) ∈ b.sent := by
    have hmem : (ch, f) ∈ framesOf b.sent ch := by
      rw [hsent]
      exact List.mem_append_right _ (List.mem_filter.mpr ⟨hf, by simp⟩)
    exact (List.mem_filter.mp hmem).1
  obtain ⟨hauto, x, hx, rfl, rfl⟩ := hpolite.known _ hmem tag htag
  rcases hb x hx hopen with hx | hauto' | hany
  · exact Option.isSome_iff_exists.mp (List.find?_isSome.mpr ⟨x, hx, by simp⟩)
  · rw [hauto] at hauto'
    cases hauto'
  · obtain ⟨g, hg, hsettles⟩ := List.any_eq_true.mp hany
    exact absurd hsettles (List.countP_eq_zero.mp hnone g hg)

/-- **The broker of a polite consumer closes no channel as it processes a frame.** -/
theorem closed_of_process (hs : b.Sound) (hb : b.Pending auto) (hpolite : b.Polite auto)
    (h : b.process ch = some c) : c.closed = b.closed := by
  obtain ⟨⟨k, f⟩, hf, rfl⟩ := Option.map_eq_some_iff.mp h
  have hch := List.find?_some hf
  obtain rfl : k = ch := beq_iff_eq.mp hch
  have hwire := List.mem_of_find?_eq_some hf
  dsimp only
  split
  · rfl
  · next hopen =>
    have hfound : ∀ tag, f.settled = some tag → ∃ x, b.lookup k tag = some x := fun tag htag =>
      exists_lookup hs hb hpolite (by simpa using hopen) hwire htag
    cases f with
    | publish y => rfl
    | ack tag =>
      obtain ⟨x, hx⟩ := hfound tag rfl
      simp only [apply]
      split
      · rfl
      · next hnone => exact absurd (hnone.symm.trans hx) (by simp)
    | nack tag requeue =>
      obtain ⟨x, hx⟩ := hfound tag rfl
      simp only [apply]
      split
      · split <;> rfl
      · next hnone => exact absurd (hnone.symm.trans hx) (by simp)

/-- Only `close` closes. -/
theorem closed_of_step (hs : b.Sound) (hb : b.Pending auto) (hpolite : b.Polite auto)
    {a : Action μ κ} (ha : ∀ ch, a ≠ .close ch) (h : b.step auto window a = some c) :
    c.closed = b.closed := by
  cases a with
  | put m => exact Option.some.inj h ▸ rfl
  | send ch f => exact Option.some.inj h ▸ rfl
  | accept y => exact Option.some.inj h ▸ rfl
  | close ch => exact absurd rfl (ha ch)
  | process ch => exact closed_of_process hs hb hpolite h
  | take ch =>
    obtain ⟨⟨x, c⟩, htake, rfl⟩ := Option.map_eq_some_iff.mp h
    obtain ⟨-, -, rfl⟩ := take_spec htake
    rfl
  | dispatch ch i =>
    obtain ⟨⟨x, c⟩, hc, rfl⟩ := Option.map_eq_some_iff.mp h
    obtain ⟨m, -, hc⟩ := Option.bind_eq_some_iff.mp hc
    split at hc <;> cases hc
    cases auto <;> rfl

end

end Broker

end Theory
