import Mathlib.Algebra.Order.Group.Multiset
import Mathlib.Data.Multiset.Filter
import Mathlib.Data.List.Nodup
import Mathlib.Tactic.Abel
import MqAdapters.Theory.Machine

/-!
# A broker with one queue

Messages wait in a queue and are dispatched on channels, under a number that is fresh on
the channel.  A consumer answers by frames, which are processed in the order of their
channel: an ack or a nack of a number, or something to publish.  What is dispatched stays
unsettled until such a frame comes, or until the channel is closed and the message goes
back.  A frame about a number that is not unsettled closes the channel.

Deliveries and frames are on their way for any time.  Which message is dispatched, which
channel is processed and when a channel is closed are choices of the action; `window`
bounds what is unsettled on a channel.

The fields `dispatched`, `taken`, `returned`, `sent` and `done` record history.

* `Sound`: what holds of every reachable broker.
* `Sound.place`: each message is in one place.
* `Sound.acked`, `Sound.rejected`: a message that is gone was settled by a frame, and
  what was sent before that frame on its channel has been done.
* `Sound.redelivered`: a message that is dispatched again was returned before.
-/

namespace Theory

universe u v

/-- What a consumer sends on a channel. -/
inductive Frame (κ : Type v)
  | ack (tag : Nat)
  | nack (tag : Nat) (requeue : Bool)
  | publish (x : κ)
  deriving DecidableEq

/-- A dispatched message: the channel, its number there, and which message it is. -/
structure Dispatch where
  channel : Nat
  tag : Nat
  message : Nat
  deriving DecidableEq

/-- How a message has left the queue for good. -/
inductive Fate
  | acked
  | rejected
  /-- as it was dispatched -/
  | auto
  deriving DecidableEq

structure Broker (μ : Type u) (κ : Type v) where
  /-- all messages that were ever put into the queue -/
  messages : List μ
  ready : List Nat
  unsettled : List Dispatch
  gone : List (Dispatch × Fate)
  /-- on their way to the consumer -/
  transit : List Dispatch
  /-- on their way to the broker -/
  wire : List (Nat × Frame κ)
  /-- what has been published -/
  published : List κ
  closed : List Nat
  dispatched : List Dispatch
  taken : List Dispatch
  returned : List Dispatch
  sent : List (Nat × Frame κ)
  done : List (Nat × Frame κ)

namespace Broker

variable {μ : Type u} {κ : Type v}

def initial : Broker μ κ := ⟨[], [], [], [], [], [], [], [], [], [], [], [], []⟩

/-- A message is put into the queue. -/
def put (b : Broker μ κ) (m : μ) : Broker μ κ :=
  { b with messages := b.messages ++ [m], ready := b.ready ++ [b.messages.length] }

/-- The number of the next dispatch on the channel. -/
def tag (b : Broker μ κ) (ch : Nat) : Nat := b.dispatched.countP (·.channel == ch) + 1

/-- One more message may be dispatched on the channel. -/
def admits (b : Broker μ κ) (window : Option Nat) (ch : Nat) : Bool :=
  !b.closed.contains ch && window.all fun n => b.unsettled.countP (·.channel == ch) < n

/-- The `i`-th message that is ready is dispatched on the channel. -/
def dispatch (b : Broker μ κ) (window : Option Nat) (ch i : Nat) :
    Option (Dispatch × Broker μ κ) :=
  (b.ready[i]?).bind fun m =>
    if b.admits window ch then
      let x : Dispatch := ⟨ch, b.tag ch, m⟩
      some (x, { b with
        ready := b.ready.eraseIdx i
        unsettled := b.unsettled ++ [x]
        transit := b.transit ++ [x]
        dispatched := b.dispatched ++ [x] })
    else none

/-- The consumer takes the next delivery of the channel. -/
def take (b : Broker μ κ) (ch : Nat) : Option (Dispatch × Broker μ κ) :=
  (b.transit.find? (·.channel == ch)).map fun x =>
    (x, { b with transit := b.transit.erase x, taken := b.taken ++ [x] })

/-- The consumer sends a frame. -/
def send (b : Broker μ κ) (ch : Nat) (f : Frame κ) : Broker μ κ :=
  { b with wire := b.wire ++ [(ch, f)], sent := b.sent ++ [(ch, f)] }

/-- Something is published and confirmed. -/
def accept (b : Broker μ κ) (y : κ) : Broker μ κ := { b with published := b.published ++ [y] }

/-- The channel is closed, and what is unsettled on it goes back. -/
def close (b : Broker μ κ) (ch : Nat) : Broker μ κ :=
  let back := b.unsettled.filter (·.channel == ch)
  { b with
    closed := b.closed ++ [ch]
    ready := b.ready ++ back.map Dispatch.message
    unsettled := b.unsettled.filter (·.channel != ch)
    returned := b.returned ++ back }

/-- What is unsettled on the channel under the number. -/
def lookup (b : Broker μ κ) (ch tag : Nat) : Option Dispatch :=
  b.unsettled.find? fun x => x.channel == ch && x.tag == tag

/-- The message leaves the queue. -/
def settle (b : Broker μ κ) (x : Dispatch) (fate : Fate) : Broker μ κ :=
  { b with unsettled := b.unsettled.erase x, gone := b.gone ++ [(x, fate)] }

/-- The message goes back. -/
def giveBack (b : Broker μ κ) (x : Dispatch) : Broker μ κ :=
  { b with
    unsettled := b.unsettled.erase x
    ready := b.ready ++ [x.message]
    returned := b.returned ++ [x] }

/-- What a frame does on an open channel. -/
def apply (b : Broker μ κ) (ch : Nat) : Frame κ → Broker μ κ
  | .ack tag => match b.lookup ch tag with
    | some x => b.settle x .acked
    | none => b.close ch
  | .nack tag requeue => match b.lookup ch tag with
    | some x => if requeue then b.giveBack x else b.settle x .rejected
    | none => b.close ch
  | .publish y => { b with published := b.published ++ [y] }

/-- The next frame of the channel is processed; on a closed one it is dropped. -/
def process (b : Broker μ κ) (ch : Nat) : Option (Broker μ κ) :=
  (b.wire.find? (·.1 == ch)).map fun f =>
    let b := { b with wire := b.wire.eraseP (·.1 == ch) }
    if b.closed.contains ch then b
    else { b with done := b.done ++ [(ch, f.2)] }.apply ch f.2

inductive Action (μ : Type u) (κ : Type v)
  | put (m : μ)
  | dispatch (ch i : Nat)
  | take (ch : Nat)
  | send (ch : Nat) (f : Frame κ)
  | accept (y : κ)
  | process (ch : Nat)
  | close (ch : Nat)

/-- A step, with consumers that ack themselves or, with `auto`, do not. -/
def step (auto : Bool) (window : Option Nat) (b : Broker μ κ) : Action μ κ → Option (Broker μ κ)
  | .put m => some (b.put m)
  | .dispatch ch i => (b.dispatch window ch i).map fun (x, c) =>
    if auto then c.settle x .auto else c
  | .take ch => (b.take ch).map Prod.snd
  | .send ch f => some (b.send ch f)
  | .accept y => some (b.accept y)
  | .process ch => b.process ch
  | .close ch => some (b.close ch)

def machine (μ : Type u) (κ : Type v) (auto : Bool) (window : Option Nat) :
    Machine (Broker μ κ) (Action μ κ) where
  init := initial
  step := step auto window

/-! ## Each message is in one place -/

/-- Nothing is lost and nothing is there twice. -/
structure Conserved (b : Broker μ κ) : Prop where
  places : (↑b.ready + (↑(b.unsettled.map Dispatch.message) + ↑(b.gone.map (·.1.message))) :
    Multiset Nat) = ↑(List.range b.messages.length)
  trips : (↑b.dispatched : Multiset Dispatch) =
    ↑b.unsettled + (↑(b.gone.map Prod.fst) + ↑b.returned)

/-- A dispatch is known by its channel and its number. -/
structure Numbered (b : Broker μ κ) : Prop where
  keys : (b.dispatched.map fun x => (x.channel, x.tag)).Nodup
  tags : ∀ x ∈ b.dispatched, x.tag < b.tag x.channel
  known : ∀ x ∈ b.dispatched, x.message < b.messages.length
  carried : (↑b.dispatched : Multiset Dispatch) = ↑b.taken + ↑b.transit

/-- Everything has its cause in a frame that was done, or in a closed channel. -/
structure Caused (b : Broker μ κ) : Prop where
  acked : ∀ x, (x, Fate.acked) ∈ b.gone → (x.channel, Frame.ack x.tag) ∈ b.done
  rejected : ∀ x, (x, Fate.rejected) ∈ b.gone → (x.channel, Frame.nack x.tag false) ∈ b.done
  returned : ∀ x ∈ b.returned, x.channel ∈ b.closed ∨ (x.channel, Frame.nack x.tag true) ∈ b.done
  published : ∀ ch y, (ch, Frame.publish y) ∈ b.done → y ∈ b.published
  unsettled : ∀ x ∈ b.unsettled, x.channel ∉ b.closed

def framesOf (l : List (Nat × Frame κ)) (ch : Nat) : List (Nat × Frame κ) := l.filter (·.1 == ch)

/-- What is done on a channel is what was sent first on it. -/
def Ordered (b : Broker μ κ) : Prop :=
  ∀ ch, ∃ rest, framesOf b.sent ch = framesOf b.done ch ++ rest ∧
    (ch ∉ b.closed → rest = framesOf b.wire ch)

structure Sound (b : Broker μ κ) : Prop extends Conserved b, Numbered b, Caused b where
  ordered : b.Ordered

section

variable {b : Broker μ κ} {x : Dispatch} {ch tag : Nat} {auto : Bool} {window : Option Nat}

@[simp] theorem framesOf_append (l l' : List (Nat × Frame κ)) (ch : Nat) :
    framesOf (l ++ l') ch = framesOf l ch ++ framesOf l' ch := List.filter_append ..

/-- What is ready is a message. -/
theorem Conserved.lt_of_ready (hb : b.Conserved) {n : Nat} (hn : n ∈ b.ready) :
    n < b.messages.length := by
  refine List.mem_range.mp (Multiset.mem_coe.mp ?_)
  rw [← hb.places]
  exact Multiset.mem_add.mpr (.inl hn)

theorem sound_initial : (initial : Broker μ κ).Sound where
  places := rfl
  trips := rfl
  keys := List.nodup_nil
  tags _ h := absurd h List.not_mem_nil
  known _ h := absurd h List.not_mem_nil
  carried := rfl
  acked _ h := absurd h List.not_mem_nil
  rejected _ h := absurd h List.not_mem_nil
  returned _ h := absurd h List.not_mem_nil
  published _ _ h := absurd h List.not_mem_nil
  unsettled _ h := absurd h List.not_mem_nil
  ordered _ := ⟨[], rfl, fun _ => rfl⟩

theorem sound_put (hb : b.Sound) (m : μ) : (b.put m).Sound where
  places := by
    have h := hb.places
    simp only [put, List.length_append, List.length_singleton, List.range_succ, ← Multiset.coe_add]
    rw [← h]
    abel
  trips := hb.trips
  keys := hb.keys
  tags := hb.tags
  known x hx := by
    have hlt := hb.known x hx
    simp only [put, List.length_append, List.length_singleton]
    omega
  carried := hb.carried
  acked := hb.acked
  rejected := hb.rejected
  returned := hb.returned
  published := hb.published
  unsettled := hb.unsettled
  ordered := hb.ordered

theorem sound_dispatch {c : Broker μ κ} {i : Nat} (hb : b.Sound)
    (h : b.dispatch window ch i = some (x, c)) : c.Sound ∧ x ∈ c.unsettled := by
  obtain ⟨m, hi, h⟩ := Option.bind_eq_some_iff.mp h
  split at h
  · next hadmits =>
    cases h
    refine ⟨?_, List.mem_append_right _ (List.mem_singleton_self _)⟩
    have hopen : ch ∉ b.closed := by
      simpa [admits] using (Bool.and_eq_true_iff.mp hadmits).1
    have hready : m ::ₘ (↑(b.ready.eraseIdx i) : Multiset Nat) = ↑b.ready := by
      obtain ⟨hlt, rfl⟩ := List.getElem?_eq_some_iff.mp hi
      rw [Multiset.cons_coe, Multiset.coe_eq_coe]
      exact List.getElem_cons_eraseIdx_perm hlt
    refine ⟨⟨?_, ?_⟩, ⟨?_, ?_, ?_, ?_⟩, ⟨hb.acked, hb.rejected, hb.returned, hb.published, ?_⟩,
      hb.ordered⟩
    · have h := hb.places
      rw [← hready] at h
      rw [← h]
      simp only [List.map_append, List.map_cons, List.map_nil, ← Multiset.coe_add,
        ← Multiset.singleton_add, Multiset.coe_singleton]
      abel
    · have h := hb.trips
      simp only [← Multiset.coe_add, Multiset.coe_singleton]
      rw [h]
      abel
    · rw [List.map_append, List.nodup_append]
      refine ⟨hb.keys, List.nodup_singleton _, fun p hp q hq heq => ?_⟩
      obtain ⟨x, hx, rfl⟩ := List.mem_map.mp hp
      obtain rfl := List.mem_singleton.mp hq
      obtain ⟨hch, htag⟩ := Prod.mk.inj heq
      have hlt := hb.tags x hx
      rw [hch, htag] at hlt
      exact absurd hlt (Nat.lt_irrefl _)
    · intro x hx
      simp only [tag, List.countP_append]
      rcases List.mem_append.mp hx with hx | hx
      · have hlt := hb.tags x hx
        simp only [tag] at hlt
        omega
      · obtain rfl := List.mem_singleton.mp hx
        simp [tag]
    · intro x hx
      rcases List.mem_append.mp hx with hx | hx
      · exact hb.known x hx
      · obtain rfl := List.mem_singleton.mp hx
        exact hb.lt_of_ready (List.mem_of_getElem? hi)
    · simp only [← Multiset.coe_add]
      rw [hb.carried]
      abel
    · intro x hx
      rcases List.mem_append.mp hx with hx | hx
      · exact hb.unsettled x hx
      · obtain rfl := List.mem_singleton.mp hx
        exact hopen
  · cases h

theorem take_spec {c : Broker μ κ} (h : b.take ch = some (x, c)) :
    x ∈ b.transit ∧ x.channel = ch ∧
      c = { b with transit := b.transit.erase x, taken := b.taken ++ [x] } := by
  obtain ⟨y, hy, heq⟩ := Option.map_eq_some_iff.mp h
  obtain ⟨rfl, rfl⟩ := Prod.mk.inj heq
  have hch := List.find?_some hy
  exact ⟨List.mem_of_find?_eq_some hy, beq_iff_eq.mp hch, rfl⟩

theorem sound_take {c : Broker μ κ} (hb : b.Sound) (h : b.take ch = some (x, c)) : c.Sound := by
  obtain ⟨hx, -, rfl⟩ := take_spec h
  refine ⟨⟨hb.places, hb.trips⟩, ⟨hb.keys, hb.tags, hb.known, ?_⟩,
    ⟨hb.acked, hb.rejected, hb.returned, hb.published, hb.unsettled⟩, hb.ordered⟩
  have hsplit : (↑b.transit : Multiset Dispatch) = x ::ₘ ↑(b.transit.erase x) :=
    Multiset.coe_eq_coe.mpr (List.perm_cons_erase hx)
  simp only [← Multiset.coe_add, Multiset.coe_singleton]
  rw [hb.carried, hsplit, ← Multiset.singleton_add]
  abel

theorem sound_send (hb : b.Sound) (ch : Nat) (f : Frame κ) : (b.send ch f).Sound where
  toConserved := ⟨hb.places, hb.trips⟩
  toNumbered := ⟨hb.keys, hb.tags, hb.known, hb.carried⟩
  toCaused := ⟨hb.acked, hb.rejected, hb.returned, hb.published, hb.unsettled⟩
  ordered k := by
    obtain ⟨rest, hsent, hwire⟩ := hb.ordered k
    refine ⟨rest ++ framesOf [(ch, f)] k, ?_, fun hk => ?_⟩
    · simp only [send, framesOf_append, hsent, List.append_assoc]
    · simp only [send, framesOf_append, hwire hk]

theorem sound_accept (hb : b.Sound) (y : κ) : (b.accept y).Sound where
  toConserved := ⟨hb.places, hb.trips⟩
  toNumbered := ⟨hb.keys, hb.tags, hb.known, hb.carried⟩
  toCaused := ⟨hb.acked, hb.rejected, hb.returned,
    fun k z hz => List.mem_append_left _ (hb.published k z hz), hb.unsettled⟩
  ordered := hb.ordered

theorem sound_close (hb : b.Sound) (ch : Nat) : (b.close ch).Sound := by
  have hsplit : (↑(b.unsettled.filter (·.channel == ch)) : Multiset Dispatch) +
      ↑(b.unsettled.filter (·.channel != ch)) = ↑b.unsettled :=
    Multiset.coe_eq_coe.mpr (List.filter_append_perm _ _)
  refine ⟨⟨?_, ?_⟩, ⟨hb.keys, hb.tags, hb.known, hb.carried⟩,
    ⟨hb.acked, hb.rejected, ?_, hb.published, ?_⟩, fun k => ?_⟩
  · have h := hb.places
    have hmap := congrArg (Multiset.map Dispatch.message) hsplit
    simp only [Multiset.map_add, Multiset.map_coe] at hmap
    rw [← hmap] at h
    rw [close, ← h]
    simp only [← Multiset.coe_add]
    abel
  · have h := hb.trips
    rw [← hsplit] at h
    simp only [close, ← Multiset.coe_add]
    rw [h]
    abel
  · intro x hx
    rcases List.mem_append.mp hx with hx | hx
    · exact (hb.returned x hx).imp_left fun h => List.mem_append_left _ h
    · have hch := (List.mem_filter.mp hx).2
      exact .inl (List.mem_append_right _ (by simpa using hch))
  · intro x hx
    obtain ⟨hx, hch⟩ := List.mem_filter.mp hx
    have hopen := hb.unsettled x hx
    simp only [close, List.mem_append, List.mem_singleton, not_or]
    exact ⟨hopen, by simpa using hch⟩
  · obtain ⟨rest, hsent, hwire⟩ := hb.ordered k
    exact ⟨rest, hsent, fun hk => hwire fun h => hk (List.mem_append_left _ h)⟩

theorem lookup_spec (h : b.lookup ch tag = some x) :
    x ∈ b.unsettled ∧ x.channel = ch ∧ x.tag = tag := by
  have hx := List.find?_some h
  exact ⟨List.mem_of_find?_eq_some h, by simpa using hx⟩

/-- What is settled has left its place for the next. -/
theorem coe_unsettled (hx : x ∈ b.unsettled) :
    (↑b.unsettled : Multiset Dispatch) = x ::ₘ ↑(b.unsettled.erase x) := by
  rw [← Multiset.coe_erase, Multiset.cons_erase (Multiset.mem_coe.mpr hx)]

theorem sound_settle (hb : b.Sound) (hx : x ∈ b.unsettled) {fate : Fate}
    (hacked : fate = .acked → (x.channel, Frame.ack x.tag) ∈ b.done)
    (hrejected : fate = .rejected → (x.channel, Frame.nack x.tag false) ∈ b.done) :
    (b.settle x fate).Sound := by
  have hsplit := coe_unsettled hx
  refine ⟨⟨?_, ?_⟩, ⟨hb.keys, hb.tags, hb.known, hb.carried⟩,
    ⟨?_, ?_, hb.returned, hb.published, ?_⟩, hb.ordered⟩
  · have h := hb.places
    rw [← Multiset.map_coe, hsplit, Multiset.map_cons, Multiset.map_coe] at h
    rw [settle, ← h]
    simp only [List.map_append, List.map_cons, List.map_nil, ← Multiset.coe_add,
      Multiset.coe_singleton, ← Multiset.singleton_add]
    abel
  · have h := hb.trips
    rw [hsplit] at h
    simp only [settle, List.map_append, List.map_cons, List.map_nil, ← Multiset.coe_add,
      Multiset.coe_singleton]
    rw [h, ← Multiset.singleton_add]
    abel
  · intro y hy
    rcases List.mem_append.mp hy with hy | hy
    · exact hb.acked y hy
    · obtain ⟨rfl, rfl⟩ := Prod.mk.inj (List.mem_singleton.mp hy)
      exact hacked rfl
  · intro y hy
    rcases List.mem_append.mp hy with hy | hy
    · exact hb.rejected y hy
    · obtain ⟨rfl, rfl⟩ := Prod.mk.inj (List.mem_singleton.mp hy)
      exact hrejected rfl
  · exact fun y hy => hb.unsettled y (List.mem_of_mem_erase hy)

theorem sound_giveBack (hb : b.Sound) (hx : x ∈ b.unsettled)
    (hcause : (x.channel, Frame.nack x.tag true) ∈ b.done) : (b.giveBack x).Sound := by
  have hsplit := coe_unsettled hx
  refine ⟨⟨?_, ?_⟩, ⟨hb.keys, hb.tags, hb.known, hb.carried⟩,
    ⟨hb.acked, hb.rejected, ?_, hb.published, ?_⟩, hb.ordered⟩
  · have h := hb.places
    rw [← Multiset.map_coe, hsplit, Multiset.map_cons, Multiset.map_coe] at h
    rw [giveBack, ← h]
    simp only [← Multiset.coe_add, Multiset.coe_singleton, ← Multiset.singleton_add]
    abel
  · have h := hb.trips
    rw [hsplit] at h
    simp only [giveBack, ← Multiset.coe_add, Multiset.coe_singleton]
    rw [h, ← Multiset.singleton_add]
    abel
  · intro y hy
    rcases List.mem_append.mp hy with hy | hy
    · exact hb.returned y hy
    · obtain rfl := List.mem_singleton.mp hy
      exact .inr hcause
  · exact fun y hy => hb.unsettled y (List.mem_of_mem_erase hy)

/-- The first frame of a channel is taken off the wire. -/
theorem framesOf_next {l : List (Nat × Frame κ)} {f : Nat × Frame κ}
    (hf : l.find? (·.1 == ch) = some f) :
    framesOf l ch = f :: framesOf (l.eraseP (·.1 == ch)) ch ∧
      ∀ k, k ≠ ch → framesOf (l.eraseP (·.1 == ch)) k = framesOf l k := by
  obtain ⟨hch, as, bs, rfl, has⟩ := List.find?_eq_some_iff_append.mp hf
  have has : ∀ a ∈ as, ¬ (a.1 == ch) = true := fun a ha => by simpa using has a ha
  have hnone : framesOf as ch = [] := List.filter_eq_nil_iff.mpr has
  have herase : (f :: bs).eraseP (·.1 == ch) = bs := List.eraseP_cons_of_pos hch
  rw [List.eraseP_append_right _ has, herase]
  refine ⟨?_, fun k hk => ?_⟩
  · rw [framesOf_append, framesOf_append, hnone]
    simp [framesOf, hch]
  · have hne : ¬ (f.1 == k) = true := by
      rw [beq_iff_eq.mp hch]
      simpa using Ne.symm hk
    rw [framesOf_append, framesOf_append]
    simp [framesOf, hne]

/-- The next frame of an open channel is done, and what it has to publish is published. -/
theorem sound_do (hb : b.Sound) {f : Nat × Frame κ} (hf : b.wire.find? (·.1 == ch) = some f)
    (hopen : ch ∉ b.closed) {new : List κ} (hnew : ∀ y, f.2 = .publish y → y ∈ new) :
    Sound { b with
      wire := b.wire.eraseP (·.1 == ch), done := b.done ++ [(ch, f.2)],
      published := b.published ++ new } := by
  have hch := List.find?_some hf
  obtain ⟨hnext, hothers⟩ := framesOf_next hf
  obtain ⟨k, f⟩ := f
  obtain rfl : k = ch := beq_iff_eq.mp hch
  refine ⟨⟨hb.places, hb.trips⟩, ⟨hb.keys, hb.tags, hb.known, hb.carried⟩,
    ⟨fun x hx => List.mem_append_left _ (hb.acked x hx),
      fun x hx => List.mem_append_left _ (hb.rejected x hx),
      fun x hx => (hb.returned x hx).imp_right fun h => List.mem_append_left _ h,
      fun j y hy => ?_, hb.unsettled⟩, fun j => ?_⟩
  · rcases List.mem_append.mp hy with hy | hy
    · exact List.mem_append_left _ (hb.published j y hy)
    · have heq := (Prod.mk.inj (List.mem_singleton.mp hy)).2
      exact List.mem_append_right _ (hnew y heq.symm)
  · obtain ⟨rest, hsent, hwire⟩ := hb.ordered j
    by_cases hj : j = k
    · subst hj
      rw [hwire hopen, hnext] at hsent
      refine ⟨framesOf (b.wire.eraseP (·.1 == j)) j, ?_, fun _ => rfl⟩
      simpa [framesOf] using hsent
    · refine ⟨rest, ?_, fun h => (hwire h).trans (hothers j hj).symm⟩
      have hnone : framesOf [(k, f)] j = [] := by simp [framesOf, Ne.symm hj]
      rw [framesOf_append, hnone, List.append_nil]
      exact hsent

/-- **The next frame of a channel is processed.** -/
theorem sound_process {c : Broker μ κ} (hb : b.Sound) (h : b.process ch = some c) : c.Sound := by
  obtain ⟨f, hf, rfl⟩ := Option.map_eq_some_iff.mp h
  dsimp only
  split
  · next hclosed =>
    have hclosed : ch ∈ b.closed := by simpa using hclosed
    refine ⟨⟨hb.places, hb.trips⟩, ⟨hb.keys, hb.tags, hb.known, hb.carried⟩,
      ⟨hb.acked, hb.rejected, hb.returned, hb.published, hb.unsettled⟩, fun j => ?_⟩
    obtain ⟨rest, hsent, hwire⟩ := hb.ordered j
    refine ⟨rest, hsent, fun hj => (hwire hj).trans ?_⟩
    exact ((framesOf_next hf).2 j fun heq => hj (heq ▸ hclosed)).symm
  · next hopen =>
    have hopen : ch ∉ b.closed := by simpa using hopen
    have hlast : (ch, f.2) ∈ b.done ++ [(ch, f.2)] :=
      List.mem_append_right _ (List.mem_singleton_self _)
    have hdo : ∀ new : List κ, (∀ y, f.2 = .publish y → y ∈ new) → Sound { b with
        wire := b.wire.eraseP (·.1 == ch), done := b.done ++ [(ch, f.2)],
        published := b.published ++ new } := fun new hnew => sound_do hb hf hopen hnew
    obtain ⟨k, f⟩ := f
    cases f with
    | ack tag =>
      have hs := hdo [] nofun
      rw [List.append_nil] at hs
      simp only [apply]
      split
      · next x hx =>
        obtain ⟨hx, rfl, rfl⟩ := lookup_spec hx
        exact sound_settle hs hx (fun _ => hlast) nofun
      · exact sound_close hs ch
    | nack tag requeue =>
      have hs := hdo [] nofun
      rw [List.append_nil] at hs
      simp only [apply]
      split
      · next x hx =>
        obtain ⟨hx, rfl, rfl⟩ := lookup_spec hx
        split
        · next hrequeue =>
          subst hrequeue
          exact sound_giveBack hs hx hlast
        · next hrequeue =>
          obtain rfl : requeue = false := by simpa using hrequeue
          exact sound_settle hs hx nofun fun _ => hlast
      · exact sound_close hs ch
    | publish y =>
      exact hdo [y] fun z hz => by simpa using (Frame.publish.inj hz).symm

/-- **Every reachable broker is sound.** -/
theorem sound_of_reach {c : Broker μ κ → Action μ κ → Prop}
    (h : (machine μ κ auto window).Reach c b) : b.Sound := by
  refine Machine.Path.invariant h sound_initial fun b a b' _ hb hstep => ?_
  cases a with
  | put m => exact Option.some.inj hstep ▸ sound_put hb m
  | dispatch ch i =>
    obtain ⟨⟨x, c⟩, hc, rfl⟩ := Option.map_eq_some_iff.mp hstep
    obtain ⟨hc, hx⟩ := sound_dispatch hb hc
    dsimp only
    split
    · exact sound_settle hc hx nofun nofun
    · exact hc
  | take ch =>
    obtain ⟨⟨x, c⟩, htake, rfl⟩ := Option.map_eq_some_iff.mp hstep
    exact sound_take hb htake
  | send ch f => exact Option.some.inj hstep ▸ sound_send hb ch f
  | accept y => exact Option.some.inj hstep ▸ sound_accept hb y
  | process ch => exact sound_process hb hstep
  | close ch => exact Option.some.inj hstep ▸ sound_close hb ch

/-! ## What the broker does itself -/

/-- The action is not one of the consumer. -/
def Action.own : Action μ κ → Bool
  | .take _ => false
  | .send _ _ => false
  | .accept _ => false
  | _ => true

theorem apply_keeps (b : Broker μ κ) (ch : Nat) (f : Frame κ) :
    (b.apply ch f).messages = b.messages ∧ (b.apply ch f).dispatched = b.dispatched ∧
      (b.apply ch f).sent = b.sent ∧ (b.apply ch f).taken = b.taken ∧
      b.published <+: (b.apply ch f).published := by
  unfold apply
  repeat' split
  all_goals first
    | exact ⟨rfl, rfl, rfl, rfl, List.prefix_refl _⟩
    | exact ⟨rfl, rfl, rfl, rfl, List.prefix_append _ _⟩

/-- What a step of the broker itself leaves, and what it only adds to. -/
structure Grows (b c : Broker μ κ) : Prop where
  messages : b.messages <+: c.messages
  dispatched : b.dispatched <+: c.dispatched
  published : b.published <+: c.published
  sent : c.sent = b.sent
  taken : c.taken = b.taken

/-- **A step of the broker itself** sends nothing and takes nothing. -/
theorem own_step {c : Broker μ κ} {a : Action μ κ} (ha : a.own = true)
    (h : b.step auto window a = some c) : b.Grows c := by
  cases a with
  | take | send | accept => cases ha
  | put m =>
    cases h
    exact ⟨List.prefix_append _ _, List.prefix_refl _, List.prefix_refl _, rfl, rfl⟩
  | dispatch ch i =>
    obtain ⟨⟨x, c⟩, hc, rfl⟩ := Option.map_eq_some_iff.mp h
    obtain ⟨m, -, hc⟩ := Option.bind_eq_some_iff.mp hc
    split at hc <;> cases hc
    cases auto
    all_goals exact ⟨List.prefix_refl _, List.prefix_append _ _, List.prefix_refl _, rfl, rfl⟩
  | process ch =>
    obtain ⟨f, -, rfl⟩ := Option.map_eq_some_iff.mp h
    dsimp only
    split
    · exact ⟨List.prefix_refl _, List.prefix_refl _, List.prefix_refl _, rfl, rfl⟩
    · obtain ⟨hm, hd, hs, ht, hp⟩ := apply_keeps { b with
        wire := b.wire.eraseP (·.1 == ch), done := b.done ++ [(ch, f.2)] } ch f.2
      exact ⟨⟨[], (List.append_nil _).trans hm.symm⟩, ⟨[], (List.append_nil _).trans hd.symm⟩,
        hp, hs, ht⟩
  | close ch =>
    cases h
    exact ⟨List.prefix_refl _, List.prefix_refl _, List.prefix_refl _, rfl, rfl⟩

/-! ## Without acks -/

/-- A step settles without an ack only with `auto`. -/
theorem auto_step {c : Broker μ κ} {a : Action μ κ} (h : b.step auto window a = some c)
    (hx : (x, Fate.auto) ∈ c.gone) : (x, Fate.auto) ∈ b.gone ∨ auto = true := by
  cases a with
  | put | send | accept | close =>
    cases h
    exact .inl hx
  | take ch =>
    obtain ⟨⟨y, c⟩, htake, rfl⟩ := Option.map_eq_some_iff.mp h
    obtain ⟨-, -, rfl⟩ := take_spec htake
    exact .inl hx
  | dispatch ch i =>
    obtain ⟨⟨y, c⟩, hc, rfl⟩ := Option.map_eq_some_iff.mp h
    obtain ⟨m, -, hc⟩ := Option.bind_eq_some_iff.mp hc
    split at hc <;> cases hc
    cases auto with
    | false => exact .inl hx
    | true => exact .inr rfl
  | process ch =>
    obtain ⟨f, -, rfl⟩ := Option.map_eq_some_iff.mp h
    have hsettle : ∀ {b' : Broker μ κ} {y : Dispatch} {fate : Fate}, fate ≠ .auto →
        b'.gone = b.gone → (x, Fate.auto) ∈ (b'.settle y fate).gone → (x, Fate.auto) ∈ b.gone := by
      intro b' y fate hfate hgone hx
      rcases List.mem_append.mp hx with hx | hx
      · exact hgone ▸ hx
      · exact absurd (Prod.mk.inj (List.mem_singleton.mp hx)).2.symm hfate
    refine .inl ?_
    obtain ⟨k, f⟩ := f
    dsimp only at hx
    split at hx
    · exact hx
    · cases f with
      | ack tag =>
        simp only [apply] at hx
        split at hx
        · exact hsettle (by decide) rfl hx
        · exact hx
      | nack tag requeue =>
        simp only [apply] at hx
        split at hx
        · split at hx
          · exact hx
          · exact hsettle (by decide) rfl hx
        · exact hx
      | publish y => exact hx

theorem auto_of_reach {c : Broker μ κ → Action μ κ → Prop}
    (h : (machine μ κ auto window).Reach c b) (hx : (x, Fate.auto) ∈ b.gone) : auto = true := by
  refine Machine.Path.invariant (P := fun b : Broker μ κ => (x, Fate.auto) ∈ b.gone → auto = true)
    h (fun h => absurd h List.not_mem_nil) (fun b a b' _ ih hstep hx => ?_) hx
  exact (auto_step hstep hx).elim ih id

/-! ## What that gives -/

/-- **Each message is in one place**: ready, unsettled or gone. -/
theorem Conserved.place (hb : b.Conserved) {n : Nat} (hn : n < b.messages.length) :
    b.ready.count n + b.unsettled.countP (·.message == n) +
      b.gone.countP (·.1.message == n) = 1 := by
  have h := congrArg (Multiset.count n) hb.places
  rw [Multiset.coe_count, List.count_eq_one_of_mem List.nodup_range (List.mem_range.mpr hn)] at h
  simpa [List.count_eq_countP, List.countP_map, Function.comp_def, Nat.add_assoc] using h

/-- **A message that is dispatched again was returned before.** -/
theorem Conserved.redelivered (hb : b.Conserved) {n : Nat} (hn : n < b.messages.length) :
    b.dispatched.countP (·.message == n) + b.ready.count n =
      b.returned.countP (·.message == n) + 1 := by
  have hplace := hb.place hn
  have h := congrArg (Multiset.countP fun x : Dispatch => (x.message == n) = true) hb.trips
  simp only [Multiset.countP_add, Multiset.coe_countP, List.countP_map, Bool.decide_eq_true] at h
  simp only [Function.comp_def] at h
  omega

/-- A dispatch is known by its channel and its number. -/
theorem Numbered.unique (hb : b.Numbered) {y : Dispatch} (hx : x ∈ b.dispatched)
    (hy : y ∈ b.dispatched) (hch : x.channel = y.channel) (htag : x.tag = y.tag) : x = y :=
  List.inj_on_of_nodup_map hb.keys hx hy (by rw [hch, htag])

/-- What is on its way was dispatched. -/
theorem Numbered.dispatched_of_transit (hb : b.Numbered) (hx : x ∈ b.transit) :
    x ∈ b.dispatched := by
  refine Multiset.mem_coe.mp ?_
  rw [hb.carried]
  exact Multiset.mem_add.mpr (.inr hx)

/-- What is taken was dispatched, and is taken once. -/
theorem Numbered.taken_nodup (hb : b.Numbered) :
    (b.taken.map fun x => (x.channel, x.tag)).Nodup := by
  have hperm : b.dispatched.Perm (b.taken ++ b.transit) := Multiset.coe_eq_coe.mp hb.carried
  have hkeys := (hperm.map fun x => (x.channel, x.tag)).nodup_iff.mp hb.keys
  rw [List.map_append] at hkeys
  exact hkeys.of_append_left

/-- What is gone was dispatched. -/
theorem Conserved.dispatched_of_gone (hb : b.Conserved) {fate : Fate} (hx : (x, fate) ∈ b.gone) :
    x ∈ b.dispatched := by
  refine Multiset.mem_coe.mp ?_
  rw [hb.trips]
  exact Multiset.mem_add.mpr (.inr (Multiset.mem_add.mpr (.inl
    (Multiset.mem_coe.mpr (List.mem_map_of_mem hx)))))

/-- What was returned was dispatched. -/
theorem Conserved.dispatched_of_returned (hb : b.Conserved) (hx : x ∈ b.returned) :
    x ∈ b.dispatched := by
  refine Multiset.mem_coe.mp ?_
  rw [hb.trips]
  exact Multiset.mem_add.mpr (.inr (Multiset.mem_add.mpr (.inr (Multiset.mem_coe.mpr hx))))

/-- **What was sent on a channel before a frame that is done has been published.** -/
theorem Sound.before (hb : b.Sound) {f : Frame κ} (hf : (ch, f) ∈ b.done) :
    ∃ p q, b.sent = p ++ (ch, f) :: q ∧ ∀ y, (ch, Frame.publish y) ∈ p → y ∈ b.published := by
  obtain ⟨rest, hsent, -⟩ := hb.ordered ch
  have hmem : (ch, f) ∈ framesOf b.done ch := List.mem_filter.mpr ⟨hf, by simp⟩
  obtain ⟨P, Q, hdone⟩ := List.append_of_mem hmem
  rw [hdone, List.append_assoc, List.cons_append] at hsent
  obtain ⟨p, l, hl, hp, hl'⟩ := List.filter_eq_append_iff.mp hsent
  obtain ⟨p', q, rfl, hp', -, -⟩ := List.filter_eq_cons_iff.mp hl'
  refine ⟨p ++ p', q, by rw [hl, List.append_assoc], fun y hy => ?_⟩
  rcases List.mem_append.mp hy with hy | hy
  · refine hb.published ch y ?_
    have hP : (ch, Frame.publish y) ∈ P := hp ▸ List.mem_filter.mpr ⟨hy, by simp⟩
    have hmem : (ch, Frame.publish y) ∈ framesOf b.done ch :=
      hdone ▸ List.mem_append_left _ hP
    exact (List.mem_filter.mp hmem).1
  · exact absurd (beq_self_eq_true ch) (hp' _ hy)

end

end Broker

end Theory
