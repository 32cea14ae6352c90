import Mathlib.Algebra.GroupWithZero.Nat
import MqAdapters.Theory.Lists

/-!
# Items collected into batches that are awaited together

A `Batching ω` is a list of items, each with an owner in `ω` and an outcome that
is settled once.  New items are collected; the collected items are handed over
as one batch; and a batch is awaited until it closes, with the verdict that its
members give: it closes well when all have succeeded, and badly as soon as one
has not, whatever the others still do.  The one who waits may also cancel the
batch, and with it every member that is still pending.

* `Grows`: an item keeps its owner, and its outcome once that is settled.
* `Kept s P`: some owner in `P` has an item that has succeeded or is still
  waited for.  Only a batch that closes badly (`kept_close`) or is cancelled
  (`kept_cancel`) changes that, and only for the owners of its members.
* `Repeats s P`: the owners in `P` have a new item only after one that failed.
* `Honest`: a batch closes well only if its members have succeeded.
* `Filed`: every collected item is in exactly one place, and few wait to be handed
  over.
-/

namespace Theory

universe u

/-- How an item has ended. -/
inductive Outcome
  | pending
  | succeeded
  | failed
  | cancelled
  deriving DecidableEq

/-- How a batch has ended. -/
inductive Verdict
  | ok
  | failed
  | cancelled
  deriving DecidableEq

structure Item (ω : Type u) where
  owner : ω
  outcome : Outcome

/-- A pending item ends. -/
def Item.settle {ω : Type u} (x : Item ω) (o : Outcome) : Item ω :=
  if x.outcome = .pending then { x with outcome := o } else x

/-- The members of a batch, by number, and its verdict once it is closed. -/
structure Batch where
  members : List Nat
  verdict : Option Verdict

structure Batching (ω : Type u) where
  items : List (Item ω)
  collected : List Nat
  batches : List Batch

namespace Batching

variable {ω : Type u}

def empty : Batching ω := ⟨[], [], []⟩

/-- How the item `i` has ended. -/
def outcome (s : Batching ω) (i : Nat) : Outcome :=
  ((s.items[i]?).map Item.outcome).getD .pending

/-- What the members of a batch make of it so far. -/
def verdict (s : Batching ω) (members : List Nat) : Option Verdict :=
  if members.any (s.outcome · == .failed) then some .failed
  else if members.any (s.outcome · == .cancelled) then some .cancelled
  else if members.all (s.outcome · == .succeeded) then some .ok
  else none

/-- An item on its own, that is not collected. -/
def alone (s : Batching ω) (w : ω) : Batching ω := { s with items := s.items ++ [⟨w, .pending⟩] }

/-- A new item is collected. -/
def add (s : Batching ω) (w : ω) : Batching ω :=
  { s.alone w with collected := s.collected ++ [s.items.length] }

/-- The collected items become a batch. -/
def hand (s : Batching ω) : Batching ω :=
  { s with collected := [], batches := s.batches ++ [⟨s.collected, none⟩] }

def settle (s : Batching ω) (i : Nat) (ok : Bool) : Batching ω :=
  { s with items := s.items.modify i (Item.settle · (if ok then .succeeded else .failed)) }

/-- The batch `b`, if it is awaited. -/
def open? (s : Batching ω) (b : Nat) : Option (List Nat) :=
  (s.batches[b]?).bind fun batch => match batch.verdict with
    | none => some batch.members
    | some _ => none

/-- How the batch `b` has ended. -/
def result (s : Batching ω) (b : Nat) : Option Verdict := (s.batches[b]?).bind Batch.verdict

/-- The batch `b` closes with the verdict of its members. -/
def close (s : Batching ω) (b : Nat) : Option (Batching ω) :=
  (s.open? b).bind fun members => (s.verdict members).map fun v =>
    { s with batches := s.batches.set b ⟨members, some v⟩ }

/-- The batch `b` is cancelled, if it is still awaited. -/
def cancel (s : Batching ω) (b : Nat) : Batching ω :=
  match s.open? b with
  | none => s
  | some members => { s with
      items := s.items.mapIdx fun i x => if i ∈ members then Item.settle x .cancelled else x
      batches := s.batches.set b ⟨members, some .cancelled⟩ }

variable {s t : Batching ω} {P : ω → Prop} {i b : Nat} {w : ω}

/-! ## Items only grow -/

/-- An item keeps its owner, and its outcome once that is settled. -/
def Grows (s t : Batching ω) : Prop :=
  ∀ (i : Nat) (x : Item ω), s.items[i]? = some x → ∃ y, t.items[i]? = some y ∧
    y.owner = x.owner ∧ (x.outcome ≠ .pending → y.outcome = x.outcome)

theorem grows_of_eq (h : t.items = s.items) : Grows s t := fun _ x hx =>
  ⟨x, by rw [h, hx], rfl, fun _ => rfl⟩

theorem Item.settle_grows (x : Item ω) (o : Outcome) :
    (x.settle o).owner = x.owner ∧ (x.outcome ≠ .pending → (x.settle o).outcome = x.outcome) := by
  unfold Item.settle
  split
  · next hp => exact ⟨rfl, fun hn => absurd hp hn⟩
  · exact ⟨rfl, fun _ => rfl⟩

theorem grows_alone : Grows s (s.alone w) := by
  intro i x hx
  exact ⟨x, getElem?_concat_of_some hx, rfl, fun _ => rfl⟩

theorem grows_add : Grows s (s.add w) := grows_alone (s := s)

theorem grows_settle (i : Nat) (ok : Bool) : Grows s (s.settle i ok) := by
  intro j x hx
  obtain ⟨hown, hout⟩ := Item.settle_grows x (if ok then .succeeded else .failed)
  by_cases hij : i = j
  · refine ⟨_, ?_, hown, hout⟩
    simp only [settle, List.getElem?_modify, hx, hij, if_true]
    rfl
  · exact ⟨x, by simp [settle, hx, hij], rfl, fun _ => rfl⟩

@[simp] theorem length_settle (i : Nat) (ok : Bool) :
    (s.settle i ok).items.length = s.items.length := by
  simp [settle]

@[simp] theorem length_cancel (b : Nat) : (s.cancel b).items.length = s.items.length := by
  unfold cancel
  split
  · rfl
  · simp

theorem items_close (h : s.close b = some t) : t.items = s.items := by
  obtain ⟨_, -, h⟩ := Option.bind_eq_some_iff.mp h
  obtain ⟨_, -, rfl⟩ := Option.map_eq_some_iff.mp h
  rfl

@[simp] theorem collected_cancel (b : Nat) : (s.cancel b).collected = s.collected := by
  unfold cancel
  split <;> rfl

theorem grows_cancel (b : Nat) : Grows s (s.cancel b) := by
  unfold cancel
  split
  · exact grows_of_eq rfl
  · intro j x hx
    simp only [List.getElem?_mapIdx, hx, Option.map_some]
    obtain ⟨hown, hout⟩ := Item.settle_grows x .cancelled
    split
    · exact ⟨_, rfl, hown, hout⟩
    · exact ⟨x, rfl, rfl, fun _ => rfl⟩

/-! ## Items that succeed -/

theorem succeeded_iff {j : Nat} :
    s.outcome j = .succeeded ↔ ∃ x, s.items[j]? = some x ∧ x.outcome = .succeeded := by
  unfold outcome
  cases s.items[j]? with
  | none => simp
  | some x => simp

theorem Item.succeeded_of_settle {x : Item ω} {o : Outcome}
    (h : (x.settle o).outcome = .succeeded) : x.outcome = .succeeded ∨ o = .succeeded := by
  unfold Item.settle at h
  split at h
  · exact .inr h
  · exact .inl h

theorem succeeded_settle {j : Nat} {ok : Bool} (h : (s.settle i ok).outcome j = .succeeded) :
    s.outcome j = .succeeded ∨ i = j ∧ ok = true := by
  rw [succeeded_iff] at h ⊢
  obtain ⟨y, hy, hs⟩ := h
  simp only [settle, List.getElem?_modify] at hy
  obtain ⟨x, hx, rfl⟩ := Option.map_eq_some_iff.mp hy
  split at hs
  · next hij =>
    rcases Item.succeeded_of_settle hs with hs | ho
    · exact .inl ⟨x, hx, hs⟩
    · cases ok with
      | true => exact .inr ⟨hij, rfl⟩
      | false => cases ho
  · exact .inl ⟨x, hx, hs⟩

theorem succeeded_cancel {j : Nat} (h : (s.cancel b).outcome j = .succeeded) :
    s.outcome j = .succeeded := by
  unfold cancel at h
  split at h
  · exact h
  · rw [succeeded_iff] at h ⊢
    obtain ⟨y, hy, hs⟩ := h
    simp only [List.getElem?_mapIdx] at hy
    obtain ⟨x, hx, rfl⟩ := Option.map_eq_some_iff.mp hy
    refine ⟨x, hx, ?_⟩
    split at hs
    · exact (Item.succeeded_of_settle hs).resolve_right (by simp)
    · exact hs

/-- A batch closes well exactly when all its members have succeeded. -/
theorem verdict_eq_ok_iff {members : List Nat} :
    s.verdict members = some .ok ↔ ∀ i ∈ members, s.outcome i = .succeeded := by
  unfold verdict
  constructor
  · intro h
    split at h
    · cases h
    · split at h
      · cases h
      · split at h
        · next hall => simpa using hall
        · cases h
  · intro h
    have hfailed : members.any (s.outcome · == .failed) = false := by
      simpa using fun i hi => by simp [h i hi]
    have hcancelled : members.any (s.outcome · == .cancelled) = false := by
      simpa using fun i hi => by simp [h i hi]
    have hall : members.all (s.outcome · == .succeeded) = true := by simpa using h
    simp [hfailed, hcancelled, hall]

/-! ## Owners that are kept -/

/-- The item `i` belongs to an owner in `P`. -/
def Owned (s : Batching ω) (i : Nat) (P : ω → Prop) : Prop :=
  ∃ x, s.items[i]? = some x ∧ P x.owner

/-- Somebody waits for the item `i`, or will. -/
def Awaited (s : Batching ω) (i : Nat) : Prop :=
  i ∈ s.collected ∨ ∃ b members, s.open? b = some members ∧ i ∈ members

/-- An owner in `P` has an item that has succeeded. -/
def Confirmed (s : Batching ω) (P : ω → Prop) : Prop :=
  ∃ i, s.Owned i P ∧ s.outcome i = .succeeded

/-- An owner in `P` has an item that has succeeded or is waited for. -/
def Kept (s : Batching ω) (P : ω → Prop) : Prop :=
  ∃ i, s.Owned i P ∧ (s.outcome i = .succeeded ∨ s.Awaited i)

theorem Grows.owned (h : Grows s t) (ho : s.Owned i P) : t.Owned i P := by
  obtain ⟨x, hx, hp⟩ := ho
  obtain ⟨y, hy, hown, -⟩ := h i x hx
  exact ⟨y, hy, hown ▸ hp⟩

/-- An item that is settled keeps its outcome. -/
theorem Grows.settled (h : Grows s t) (ho : s.outcome i ≠ .pending) :
    t.outcome i = s.outcome i := by
  unfold outcome at ho ⊢
  rcases hx : s.items[i]? with _ | x <;> rw [hx] at ho
  · exact absurd rfl ho
  · obtain ⟨y, hy, -, hout⟩ := h i x hx
    simp [hy, hout ho]

theorem Grows.succeeded (h : Grows s t) (ho : s.outcome i = .succeeded) :
    t.outcome i = .succeeded := by
  rw [h.settled (by simp [ho]), ho]

theorem Grows.confirmed (h : Grows s t) (hc : s.Confirmed P) : t.Confirmed P :=
  hc.imp fun _ ⟨ho, hs⟩ => ⟨h.owned ho, h.succeeded hs⟩

theorem confirmed_iff_mem :
    s.Confirmed P ↔ ∃ x ∈ s.items, P x.owner ∧ x.outcome = .succeeded := by
  constructor
  · rintro ⟨i, ⟨x, hx, hp⟩, hs⟩
    exact ⟨x, List.mem_of_getElem? hx, hp, by simpa [outcome, hx] using hs⟩
  · rintro ⟨x, hm, hp, hs⟩
    obtain ⟨i, hi⟩ := List.mem_iff_getElem?.mp hm
    exact ⟨i, ⟨x, hi, hp⟩, by simp [outcome, hi, hs]⟩

theorem Confirmed.kept (h : s.Confirmed P) : s.Kept P := h.imp fun _ ⟨ho, hs⟩ => ⟨ho, .inl hs⟩

/-- With nothing awaited, an owner that is kept is confirmed. -/
theorem Kept.confirmed (hk : s.Kept P) (ha : ∀ i, ¬ s.Awaited i) : s.Confirmed P :=
  hk.imp fun i ⟨ho, hw⟩ => ⟨ho, hw.resolve_right (ha i)⟩

/-- Items grow, batches are added, and what is awaited stays so. -/
structure Extends (s t : Batching ω) : Prop where
  grows : Grows s t
  awaited : ∀ i, s.Awaited i → t.Awaited i
  batches : s.batches <+: t.batches

theorem Extends.kept (h : Extends s t) (hk : s.Kept P) : t.Kept P :=
  hk.imp fun i ⟨ho, hw⟩ => ⟨h.grows.owned ho, hw.imp h.grows.succeeded (h.awaited i)⟩

theorem Extends.refl (s : Batching ω) : Extends s s :=
  ⟨grows_of_eq rfl, fun _ h => h, List.prefix_rfl⟩

theorem Grows.trans {u : Batching ω} (h : Grows s t) (h' : Grows t u) : Grows s u := by
  intro i x hx
  obtain ⟨y, hy, hown, hout⟩ := h i x hx
  obtain ⟨z, hz, hown', hout'⟩ := h' i y hy
  refine ⟨z, hz, hown'.trans hown, ?_⟩
  intro hn
  rw [hout' (by rw [hout hn]; exact hn), hout hn]

theorem Extends.trans {u : Batching ω} (h : Extends s t) (h' : Extends t u) : Extends s u :=
  ⟨h.grows.trans h'.grows, fun i ha => h'.awaited i (h.awaited i ha), h.batches.trans h'.batches⟩

theorem extends_alone : Extends s (s.alone w) := ⟨grows_alone, fun _ h => h, List.prefix_rfl⟩

theorem extends_add : Extends s (s.add w) :=
  ⟨grows_add, fun _ h => h.imp_left (List.mem_append_left _), List.prefix_rfl⟩

theorem extends_settle (i : Nat) (ok : Bool) : Extends s (s.settle i ok) :=
  ⟨grows_settle i ok, fun _ h => h, List.prefix_rfl⟩

/-- The owner of a new item owns it. -/
theorem owned_add (hw : P w) : (s.add w).Owned s.items.length P :=
  ⟨⟨w, .pending⟩, by simp [add, alone], hw⟩

theorem kept_add (hw : P w) : (s.add w).Kept P :=
  ⟨s.items.length, owned_add hw, .inr (.inl (by simp [add, alone]))⟩

theorem open?_hand (b : Nat) :
    s.hand.open? b = if b = s.batches.length then some s.collected else s.open? b := by
  unfold open? hand
  dsimp only
  rw [getElem?_concat]
  split <;> rfl

theorem open?_lt {members : List Nat} (h : s.open? b = some members) : b < s.batches.length := by
  unfold open? at h
  by_contra hb
  rw [List.getElem?_eq_none (by omega)] at h
  cases h

theorem extends_hand : Extends s s.hand := by
  refine ⟨grows_of_eq rfl, fun i h => .inr ?_, List.prefix_append _ _⟩
  rcases h with h | ⟨b, members, hb, hi⟩
  · exact ⟨s.batches.length, s.collected, by simp [open?_hand], h⟩
  · exact ⟨b, members, by rw [open?_hand, if_neg (Nat.ne_of_lt (open?_lt hb)), hb], hi⟩

/-- Setting the verdict of a batch closes it, and no other. -/
theorem awaited_of_set {members : List Nat} {v : Verdict} (hb : s.open? b = some members)
    (hc : t.collected = s.collected) (ht : t.batches = s.batches.set b ⟨members, some v⟩)
    (ha : s.Awaited i) : i ∈ members ∨ t.Awaited i := by
  rcases ha with ha | ⟨c, others, hc', hi⟩
  · exact .inr (.inl (hc ▸ ha))
  · by_cases h : b = c
    · subst h
      rw [hb] at hc'
      exact .inl (Option.some.inj hc' ▸ hi)
    · refine .inr (.inr ⟨c, others, ?_, hi⟩)
      unfold open? at hc' ⊢
      rwa [ht, List.getElem?_set_ne h]

/-- Closing a batch loses an owner only if it closes badly, with an item of the
owner in it and no other that has succeeded. -/
theorem kept_close (h : s.close b = some t) (hk : s.Kept P)
    (hbad : ∀ members, s.open? b = some members → s.verdict members ≠ some .ok →
      (∃ i ∈ members, s.Owned i P) → s.Confirmed P) : t.Kept P := by
  obtain ⟨members, hb, h⟩ := Option.bind_eq_some_iff.mp h
  obtain ⟨v, hv, rfl⟩ := Option.map_eq_some_iff.mp h
  have hg : Grows s { s with batches := s.batches.set b ⟨members, some v⟩ } := grows_of_eq rfl
  obtain ⟨i, ho, hs | ha⟩ := hk
  · exact Confirmed.kept ⟨i, hg.owned ho, hg.succeeded hs⟩
  · rcases awaited_of_set (t := { s with batches := s.batches.set b ⟨members, some v⟩ })
      hb rfl rfl ha with hi | ha
    · by_cases hok : s.verdict members = some .ok
      · exact (hg.confirmed ⟨i, ho, verdict_eq_ok_iff.mp hok i hi⟩).kept
      · exact (hg.confirmed (hbad members hb hok ⟨i, hi, ho⟩)).kept
    · exact ⟨i, hg.owned ho, .inr ha⟩

/-- Cancelling a batch loses an owner only if it has an item in it and no other
that has succeeded. -/
theorem kept_cancel (hk : s.Kept P)
    (hbad : ∀ members, s.open? b = some members → (∃ i ∈ members, s.Owned i P) →
      s.Confirmed P) : (s.cancel b).Kept P := by
  have hg := grows_cancel (s := s) b
  obtain ⟨i, ho, hs | ha⟩ := hk
  · exact Confirmed.kept ⟨i, hg.owned ho, hg.succeeded hs⟩
  · rcases hb : s.open? b with _ | members
    · rw [show s.cancel b = s by simp [cancel, hb]]
      exact ⟨i, ho, .inr ha⟩
    · have hset : (s.cancel b).batches = s.batches.set b ⟨members, some .cancelled⟩ := by
        simp [cancel, hb]
      rcases awaited_of_set hb (collected_cancel b) hset ha with hi | ha
      · exact (hg.confirmed (hbad members hb ⟨i, hi, ho⟩)).kept
      · exact ⟨i, hg.owned ho, .inr ha⟩

/-! ## Items that come after a failed one -/

/-- The owners in `P` had a new item only when one of theirs had failed, but for
the first. -/
def Repeats (s : Batching ω) (P : ω → Prop) : Prop :=
  ∀ i j, i < j → s.Owned i P → s.Owned j P → ∃ k < j, s.Owned k P ∧ s.outcome k = .failed

/-- The owners in `P` have no item, or one that failed. -/
def Free (s : Batching ω) (P : ω → Prop) : Prop :=
  (∃ i, s.Owned i P) → ∃ k, s.Owned k P ∧ s.outcome k = .failed

theorem Owned.lt (h : s.Owned i P) : i < s.items.length := by
  obtain ⟨x, hx, -⟩ := h
  exact (List.getElem?_eq_some_iff.mp hx).1

theorem owned_alone_iff :
    (s.alone w).Owned i P ↔ s.Owned i P ∨ i = s.items.length ∧ P w := by
  constructor
  · rintro ⟨x, hx, hp⟩
    unfold alone at hx
    rcases of_getElem?_concat hx with hx | ⟨hi, rfl⟩
    · exact .inl ⟨x, hx, hp⟩
    · exact .inr ⟨hi, hp⟩
  · rintro (h | ⟨rfl, hp⟩)
    · exact grows_alone.owned h
    · exact owned_add (s := s) hp

/-- Without a new item, the items keep their owners. -/
theorem Grows.owned_iff (h : Grows s t) (hlen : t.items.length = s.items.length) :
    t.Owned i P ↔ s.Owned i P := by
  refine ⟨?_, h.owned⟩
  intro ht
  obtain ⟨y, hy, hp⟩ := ht
  have hi : i < s.items.length := hlen ▸ Owned.lt ⟨y, hy, hp⟩
  obtain ⟨z, hz, hown, -⟩ := h i s.items[i] (List.getElem?_eq_getElem hi)
  obtain rfl : y = z := Option.some.inj (hy.symm.trans hz)
  exact ⟨_, List.getElem?_eq_getElem hi, hown ▸ hp⟩

theorem Grows.failed (h : Grows s t) (ho : s.outcome i = .failed) : t.outcome i = .failed := by
  rw [h.settled (by simp [ho]), ho]

theorem Grows.repeats (h : Grows s t) (hlen : t.items.length = s.items.length)
    (hr : s.Repeats P) : t.Repeats P := by
  intro i j hij hi hj
  obtain ⟨k, hk, ho, hf⟩ := hr i j hij ((h.owned_iff hlen).mp hi) ((h.owned_iff hlen).mp hj)
  exact ⟨k, hk, h.owned ho, h.failed hf⟩

theorem Grows.free (h : Grows s t) (hlen : t.items.length = s.items.length) (hf : s.Free P) :
    t.Free P := by
  rintro ⟨i, hi⟩
  obtain ⟨k, ho, hfail⟩ := hf ⟨i, (h.owned_iff hlen).mp hi⟩
  exact ⟨k, h.owned ho, h.failed hfail⟩

/-- A new item of an owner that is free. -/
theorem repeats_alone (hr : s.Repeats P) (hf : P w → s.Free P) : (s.alone w).Repeats P := by
  have hg : Grows s (s.alone w) := grows_alone
  intro i j hij hi hj
  have hi : s.Owned i P := by
    rcases owned_alone_iff.mp hi with hi | ⟨hi, -⟩
    · exact hi
    · rcases owned_alone_iff.mp hj with hj | ⟨hj, -⟩
      · have := hj.lt
        omega
      · omega
  rcases owned_alone_iff.mp hj with hj | ⟨rfl, hw⟩
  · obtain ⟨k, hk, ho, hfail⟩ := hr i j hij hi hj
    exact ⟨k, hk, hg.owned ho, hg.failed hfail⟩
  · obtain ⟨k, ho, hfail⟩ := hf hw ⟨i, hi⟩
    exact ⟨k, ho.lt, hg.owned ho, hg.failed hfail⟩

/-- An item of somebody else. -/
theorem free_alone (hw : ¬ P w) (hf : s.Free P) : (s.alone w).Free P := by
  rintro ⟨i, hi⟩
  rcases owned_alone_iff.mp hi with hi | ⟨-, hp⟩
  · obtain ⟨k, ho, hfail⟩ := hf ⟨i, hi⟩
    exact ⟨k, grows_alone.owned ho, grows_alone.failed hfail⟩
  · exact absurd hp hw

/-- An owner whose first item has succeeded has no other. -/
theorem Repeats.unique (h : s.Repeats P) (hi : s.Owned i P)
    (hfirst : ∀ j, s.Owned j P → i ≤ j) (hs : s.outcome i = .succeeded) :
    ∀ j, s.Owned j P → j = i := by
  intro j
  induction j using Nat.strongRecOn with
  | ind j ih =>
    intro hj
    by_contra hne
    have hij : i < j := Nat.lt_of_le_of_ne (hfirst j hj) (Ne.symm hne)
    obtain ⟨k, hk, ho, hfail⟩ := h i j hij hi hj
    rw [ih k hk ho, hs] at hfail
    cases hfail

/-! ## Batches keep their members -/

/-- Items grow, and a batch keeps its members. -/
structure Evolves (s t : Batching ω) : Prop where
  grows : Grows s t
  members : ∀ (b : Nat) (batch : Batch), s.batches[b]? = some batch →
    ∃ batch', t.batches[b]? = some batch' ∧ batch'.members = batch.members

theorem Extends.evolves (h : Extends s t) : Evolves s t where
  grows := h.grows
  members b batch hb := by
    obtain ⟨more, hmore⟩ := h.batches
    refine ⟨batch, ?_, rfl⟩
    rw [← hmore, List.getElem?_append_left (List.getElem?_eq_some_iff.mp hb).1, hb]

/-- A batch that is awaited, as it stands in the list. -/
theorem batches_of_open? {members : List Nat} (h : s.open? b = some members) :
    s.batches[b]? = some ⟨members, none⟩ := by
  obtain ⟨⟨ms, v⟩, hb, h⟩ := Option.bind_eq_some_iff.mp h
  cases v <;> cases h
  exact hb

theorem members_of_set {members : List Nat} {v : Verdict} (hb : s.open? b = some members)
    (ht : t.batches = s.batches.set b ⟨members, some v⟩) (c : Nat) (batch : Batch)
    (hc : s.batches[c]? = some batch) :
    ∃ batch', t.batches[c]? = some batch' ∧ batch'.members = batch.members := by
  by_cases h : b = c
  · subst h
    rw [batches_of_open? hb] at hc
    obtain rfl := Option.some.inj hc
    exact ⟨⟨members, some v⟩, by rw [ht, List.getElem?_set_self (open?_lt hb)], rfl⟩
  · exact ⟨batch, by rw [ht, List.getElem?_set_ne h, hc], rfl⟩

theorem evolves_close (h : s.close b = some t) : Evolves s t := by
  obtain ⟨members, hb, h⟩ := Option.bind_eq_some_iff.mp h
  obtain ⟨v, hv, rfl⟩ := Option.map_eq_some_iff.mp h
  exact ⟨grows_of_eq rfl, members_of_set hb rfl⟩

theorem evolves_cancel (b : Nat) : Evolves s (s.cancel b) := by
  refine ⟨grows_cancel b, ?_⟩
  rcases hb : s.open? b with _ | members
  · rw [show s.cancel b = s by simp [cancel, hb]]
    exact fun _ batch hc => ⟨batch, hc, rfl⟩
  · exact members_of_set (v := .cancelled) hb (by simp [cancel, hb])

/-- A batch that has ended is not awaited. -/
theorem open?_of_result (h : (s.result b).isSome = true) : s.open? b = none := by
  unfold result at h
  unfold open?
  rcases hb : s.batches[b]? with _ | ⟨ms, v⟩
  · rfl
  · cases v with
    | none => simp [hb] at h
    | some v => rfl

/-- No batch becomes awaited by closing one. -/
theorem open?_of_set {c : Nat} {members others : List Nat} {v : Verdict}
    (ht : t.batches = s.batches.set b ⟨members, some v⟩) (hc : t.open? c = some others) :
    s.open? c = some others ∧ c ≠ b := by
  unfold open? at hc ⊢
  rw [ht, List.getElem?_set] at hc
  split at hc
  · split at hc <;> cases hc
  · next h => exact ⟨hc, Ne.symm h⟩

theorem open?_of_close {c : Nat} {members : List Nat} (h : s.close b = some t)
    (hc : t.open? c = some members) : s.open? c = some members := by
  obtain ⟨_, -, h⟩ := Option.bind_eq_some_iff.mp h
  obtain ⟨_, -, rfl⟩ := Option.map_eq_some_iff.mp h
  exact (open?_of_set rfl hc).1

theorem open?_of_cancel {c : Nat} {members : List Nat}
    (hc : (s.cancel b).open? c = some members) : s.open? c = some members ∧ c ≠ b := by
  rcases hb : s.open? b with _ | others
  · rw [show s.cancel b = s by simp [cancel, hb]] at hc
    refine ⟨hc, ?_⟩
    rintro rfl
    rw [hb] at hc
    cases hc
  · have hset : (s.cancel b).batches = s.batches.set b ⟨others, some .cancelled⟩ := by
      simp [cancel, hb]
    exact open?_of_set hset hc

/-! ## Batches that close well -/

/-- The members of a batch that has closed well have succeeded. -/
def Honest (s : Batching ω) : Prop :=
  ∀ batch ∈ s.batches, batch.verdict = some .ok →
    ∀ i ∈ batch.members, s.outcome i = .succeeded

theorem Honest.grows (h : s.Honest) (hg : Grows s t) (hb : t.batches = s.batches) : t.Honest :=
  fun batch hm hok i hi => hg.succeeded (h batch (hb ▸ hm) hok i hi)

theorem honest_hand (h : s.Honest) : s.hand.Honest := by
  intro batch hm hok
  rcases List.mem_append.mp hm with hm | hm
  · exact h batch hm hok
  · rw [List.mem_singleton.mp hm] at hok
    cases hok

theorem honest_close (h : s.Honest) (ht : s.close b = some t) : t.Honest := by
  obtain ⟨members, hb, ht⟩ := Option.bind_eq_some_iff.mp ht
  obtain ⟨v, hv, rfl⟩ := Option.map_eq_some_iff.mp ht
  intro batch hm hok
  rcases List.mem_or_eq_of_mem_set hm with hm | rfl
  · exact h batch hm hok
  · obtain rfl : v = .ok := Option.some.inj hok
    exact verdict_eq_ok_iff.mp hv

theorem honest_cancel (h : s.Honest) (b : Nat) : (s.cancel b).Honest := by
  rcases hb : s.open? b with _ | members
  · rwa [show s.cancel b = s by simp [cancel, hb]]
  · intro batch hm hok
    have hset : (s.cancel b).batches = s.batches.set b ⟨members, some .cancelled⟩ := by
      simp [cancel, hb]
    rw [hset] at hm
    rcases List.mem_or_eq_of_mem_set hm with hm | rfl
    · exact fun i hi => (grows_cancel b).succeeded (h batch hm hok i hi)
    · cases hok

/-! ## Where an item is -/

/-- In how many places the item `f` is: among the collected items, and in the batches. -/
def places (s : Batching ω) (f : Nat) : Nat :=
  s.collected.count f + (s.batches.map fun batch => batch.members.count f).sum

@[simp] theorem places_alone (f : Nat) : (s.alone w).places f = s.places f := rfl

@[simp] theorem places_settle (i : Nat) (ok : Bool) (f : Nat) :
    (s.settle i ok).places f = s.places f := rfl

/-- A new item comes to the collected ones. -/
theorem places_add (f : Nat) :
    (s.add w).places f = s.places f + if f = s.items.length then 1 else 0 := by
  have hcount : (s.add w).collected.count f =
      s.collected.count f + if f = s.items.length then 1 else 0 := by
    rw [show (s.add w).collected = s.collected ++ [s.items.length] from rfl, List.count_append,
      List.count_singleton]
    simp only [beq_iff_eq, @eq_comm Nat f]
  unfold places
  rw [hcount, show (s.add w).batches = s.batches from rfl]
  omega

/-- Handing over moves the collected items into one batch. -/
@[simp] theorem places_hand (f : Nat) : s.hand.places f = s.places f := by
  simp only [places, hand, List.map_append, List.sum_append, List.map_cons, List.map_nil,
    List.sum_cons, List.sum_nil, List.count_nil]
  omega

/-- A batch that ends keeps its members. -/
theorem places_of_set {members : List Nat} {v : Verdict} (hb : s.open? b = some members)
    (hc : t.collected = s.collected) (ht : t.batches = s.batches.set b ⟨members, some v⟩)
    (f : Nat) : t.places f = s.places f := by
  have hmap : t.batches.map (fun batch => batch.members.count f) =
      s.batches.map fun batch => batch.members.count f := by
    refine List.ext_getElem? ?_
    intro c
    rw [ht, List.getElem?_map, List.getElem?_map, List.getElem?_set]
    split
    · next hbc =>
      subst hbc
      rw [if_pos (open?_lt hb), batches_of_open? hb]
      rfl
    · rfl
  rw [places, places, hc, hmap]

theorem places_close (h : s.close b = some t) (f : Nat) : t.places f = s.places f := by
  obtain ⟨members, hb, h⟩ := Option.bind_eq_some_iff.mp h
  obtain ⟨v, -, h⟩ := Option.map_eq_some_iff.mp h
  exact places_of_set (v := v) hb (h ▸ rfl) (h ▸ rfl) f

@[simp] theorem places_cancel (b f : Nat) : (s.cancel b).places f = s.places f := by
  rcases hb : s.open? b with _ | members
  · rw [show s.cancel b = s by simp [cancel, hb]]
  · exact places_of_set (v := .cancelled) hb (collected_cancel b) (by simp [cancel, hb]) f

/-- Every item is in exactly one place if it was collected, and fewer than `n` wait
to be handed over. -/
structure Filed (collects : Prop) [Decidable collects] (n : Nat) (s : Batching ω) : Prop where
  once : ∀ f, s.places f = if collects ∧ f < s.items.length then 1 else 0
  few : s.collected.length < n

section Filed

variable {collects : Prop} [Decidable collects] {n : Nat}

theorem filed_empty (hn : 0 < n) : Filed collects n (empty : Batching ω) :=
  ⟨fun f => by simp [places, empty], hn⟩

/-- No item comes or moves. -/
theorem Filed.of_eq (h : Filed collects n s) (hp : ∀ f, t.places f = s.places f)
    (hi : t.items.length = s.items.length) (hc : t.collected = s.collected) :
    Filed collects n t :=
  ⟨fun f => by rw [hp f, hi, h.once f], hc ▸ h.few⟩

theorem filed_alone (h : Filed collects n s) (hno : ¬ collects) :
    Filed collects n (s.alone w) := by
  refine ⟨?_, h.few⟩
  intro f
  rw [places_alone, h.once f, if_neg (fun hc => hno hc.1), if_neg (fun hc => hno hc.1)]

/-- A new item is collected, and is in no other place. -/
theorem once_add (h : Filed collects n s) (hyes : collects) (f : Nat) :
    (s.add w).places f = if collects ∧ f < (s.add w).items.length then 1 else 0 := by
  have hlen : (s.add w).items.length = s.items.length + 1 := by simp [add, alone]
  rw [places_add, h.once f, hlen]
  simp only [hyes, true_and]
  split <;> split <;> split <;> omega

theorem filed_add (h : Filed collects n s) (hyes : collects)
    (hn : (s.add w).collected.length < n) : Filed collects n (s.add w) :=
  ⟨once_add h hyes, hn⟩

theorem filed_hand (h : Filed collects n s) : Filed collects n s.hand :=
  ⟨fun f => (places_hand f).trans (h.once f), Nat.zero_lt_of_lt h.few⟩

theorem filed_fill (h : Filed collects n s) (hyes : collects) :
    Filed collects n (s.add w).hand :=
  ⟨fun f => (places_hand f).trans (once_add h hyes f), Nat.zero_lt_of_lt h.few⟩

theorem filed_settle (h : Filed collects n s) (i : Nat) (ok : Bool) :
    Filed collects n (s.settle i ok) :=
  h.of_eq (places_settle i ok) (length_settle i ok) rfl

theorem filed_close (h : Filed collects n s) (ht : s.close b = some t) : Filed collects n t := by
  refine h.of_eq (places_close ht) (congrArg List.length (items_close ht)) ?_
  obtain ⟨members, -, ht⟩ := Option.bind_eq_some_iff.mp ht
  obtain ⟨v, -, rfl⟩ := Option.map_eq_some_iff.mp ht
  rfl

theorem filed_cancel (h : Filed collects n s) (b : Nat) : Filed collects n (s.cancel b) :=
  h.of_eq (places_cancel b) (length_cancel b) (collected_cancel b)

end Filed

/-! ## Steps that end no batch -/

/-- What can happen without a batch that ends. -/
inductive Changes (s : Batching ω) : Batching ω → Prop
  | same : Changes s s
  | alone (w : ω) : Changes s (s.alone w)
  | add (w : ω) : Changes s (s.add w)
  | fill (w : ω) : Changes s (s.add w).hand
  | hand : Changes s s.hand
  | settle (i : Nat) (ok : Bool) : Changes s (s.settle i ok)

theorem Changes.extends (h : Changes s t) : Extends s t := by
  cases h with
  | same => exact .refl s
  | alone w => exact extends_alone
  | add w => exact extends_add
  | fill w => exact extends_add.trans extends_hand
  | hand => exact extends_hand
  | settle i ok => exact extends_settle i ok

theorem Changes.honest (h : Changes s t) (hs : s.Honest) : t.Honest := by
  cases h with
  | same => exact hs
  | alone w => exact hs.grows grows_alone rfl
  | add w => exact hs.grows grows_add rfl
  | fill w => exact honest_hand (hs.grows grows_add rfl)
  | hand => exact honest_hand hs
  | settle i ok => exact hs.grows (grows_settle i ok) rfl

theorem ended_hand {batch : Batch} (hb : s.hand.batches[b]? = some batch)
    (hv : batch.verdict ≠ none) : s.batches[b]? = some batch := by
  unfold hand at hb
  rcases of_getElem?_concat hb with hb | ⟨-, rfl⟩
  · exact hb
  · exact absurd rfl hv

theorem ended_cancel {c : Nat} {batch : Batch} (hb : (s.cancel b).batches[c]? = some batch)
    (hv : batch.verdict ≠ none) (hne : batch.verdict ≠ some .cancelled) :
    s.batches[c]? = some batch := by
  unfold cancel at hb
  split at hb
  · exact hb
  · rw [List.getElem?_set] at hb
    split at hb
    · split at hb <;> cases hb
      exact absurd rfl hne
    · exact hb

/-- A batch that ends closes with the verdict of its members. -/
theorem ended_close {c : Nat} {batch : Batch} (h : s.close b = some t)
    (hb : t.batches[c]? = some batch) :
    s.batches[c]? = some batch ∨
      b = c ∧ s.open? b = some batch.members ∧ s.verdict batch.members = batch.verdict := by
  obtain ⟨members, hopen, h⟩ := Option.bind_eq_some_iff.mp h
  obtain ⟨v, hv, rfl⟩ := Option.map_eq_some_iff.mp h
  rw [List.getElem?_set] at hb
  split at hb
  · next hbc =>
    split at hb <;> cases hb
    exact .inr ⟨hbc, hopen, hv⟩
  · exact .inl hb

/-- A batch that has ended had ended before. -/
theorem Changes.ended {batch : Batch} (h : Changes s t) (hb : t.batches[b]? = some batch)
    (hv : batch.verdict ≠ none) : s.batches[b]? = some batch := by
  cases h with
  | same | alone | add | settle => exact hb
  | fill w => exact ended_hand (s := s.add w) hb hv
  | hand => exact ended_hand hb hv

/-- Nobody has cancelled an item. -/
def Uncancelled (s : Batching ω) : Prop := ∀ i, s.outcome i ≠ .cancelled

theorem uncancelled_iff_mem : s.Uncancelled ↔ ∀ x ∈ s.items, x.outcome ≠ .cancelled := by
  constructor
  · intro h x hx
    obtain ⟨i, hi⟩ := List.mem_iff_getElem?.mp hx
    simpa [outcome, hi] using h i
  · intro h i
    unfold outcome
    rcases hi : s.items[i]? with _ | x
    · exact nofun
    · simpa using h x (List.mem_of_getElem? hi)

theorem Uncancelled.of_items (h : t.items = s.items) (hs : s.Uncancelled) : t.Uncancelled := by
  rw [uncancelled_iff_mem] at hs ⊢
  rwa [h]

theorem uncancelled_alone (hs : s.Uncancelled) : (s.alone w).Uncancelled := by
  rw [uncancelled_iff_mem] at hs ⊢
  intro x hx
  rcases List.mem_append.mp hx with hx | hx
  · exact hs x hx
  · rw [List.mem_singleton.mp hx]
    exact nofun

theorem uncancelled_settle (i : Nat) (ok : Bool) (hs : s.Uncancelled) :
    (s.settle i ok).Uncancelled := by
  rw [uncancelled_iff_mem] at hs ⊢
  intro x hx
  obtain ⟨j, hj⟩ := List.mem_iff_getElem?.mp hx
  simp only [settle, List.getElem?_modify] at hj
  obtain ⟨y, hy, rfl⟩ := Option.map_eq_some_iff.mp hj
  have hold := hs y (List.mem_of_getElem? hy)
  unfold Item.settle
  split
  · split
    · cases ok <;> exact nofun
    · exact hold
  · exact hold

theorem Changes.uncancelled (h : Changes s t) (hs : s.Uncancelled) : t.Uncancelled := by
  cases h with
  | same => exact hs
  | alone w => exact uncancelled_alone hs
  | add w => exact (uncancelled_alone (w := w) hs).of_items rfl
  | fill w => exact (uncancelled_alone (w := w) hs).of_items rfl
  | hand => exact hs.of_items rfl
  | settle i ok => exact uncancelled_settle i ok hs

/-- Cancelling a batch changes none of its items if they are settled. -/
theorem items_cancel (h : ∀ members, s.open? b = some members →
    ∀ i ∈ members, s.outcome i ≠ .pending) : (s.cancel b).items = s.items := by
  unfold cancel
  split
  · rfl
  · next members hb =>
    refine List.ext_getElem? ?_
    intro i
    simp only [List.getElem?_mapIdx]
    rcases hi : s.items[i]? with _ | x
    · rfl
    · simp only [Option.map_some, Option.some.injEq]
      split
      · next hmem =>
        have hne : x.outcome ≠ .pending := by simpa [outcome, hi] using h members hb i hmem
        simp [Item.settle, hne]
      · rfl

end Batching

end Theory
