import MqAdapters.Theory.Served

/-!
# What a window gives the consumer

A broker with a window leaves no more unsettled on a channel than that.  So no more
deliveries of a channel are unanswered than the window admits, and each program that has
yet to do what a delivery is answered for belongs to one of them.

* `Windowed`: what was dispatched on a channel and has had no answer is within the window.
* `owed_le`: so is what a host still owes for the deliveries of a channel.
-/

namespace Theory

universe u v

namespace Broker

variable {μ : Type u} {κ : Type v}

/-- A frame that settles the dispatch has been done. -/
def answered (b : Broker μ κ) (x : Dispatch) : Bool := b.done.any (settles x.channel x.tag)

/-- What was dispatched on a channel and not answered is within the window. -/
def Windowed (n : Nat) (b : Broker μ κ) : Prop :=
  ∀ ch, b.dispatched.countP (fun x => x.channel == ch && !b.answered x) ≤ n

section

variable {b c : Broker μ κ} {x : Dispatch} {auto : Bool} {window : Option Nat} {n : Nat}

theorem done_apply (b : Broker μ κ) (ch : Nat) (f : Frame κ) : (b.apply ch f).done = b.done := by
  unfold apply
  repeat' split
  all_goals rfl

/-- What is done stays so. -/
theorem done_step {a : Action μ κ} (h : b.step auto window a = some c) : b.done <+: c.done := by
  cases a with
  | put | send | accept | close => exact Option.some.inj h ▸ List.prefix_refl _
  | take ch =>
    obtain ⟨⟨x, c⟩, htake, rfl⟩ := Option.map_eq_some_iff.mp h
    obtain ⟨-, -, rfl⟩ := take_spec htake
    exact List.prefix_refl _
  | dispatch ch i =>
    obtain ⟨⟨x, c⟩, hc, rfl⟩ := Option.map_eq_some_iff.mp h
    obtain ⟨m, -, hc⟩ := Option.bind_eq_some_iff.mp hc
    split at hc <;> cases hc
    cases auto <;> exact List.prefix_refl _
  | process ch =>
    obtain ⟨f, -, rfl⟩ := Option.map_eq_some_iff.mp h
    dsimp only
    split
    · exact List.prefix_refl _
    · rw [done_apply]
      exact List.prefix_append _ _

/-- A step dispatches on an open channel with room, or nothing. -/
theorem dispatched_step {a : Action μ κ} (h : b.step auto window a = some c) :
    c.dispatched = b.dispatched ∨ ∃ x, c.dispatched = b.dispatched ++ [x] ∧
      b.admits window x.channel = true ∧ c.closed = b.closed ∧
      (auto = false → c.unsettled = b.unsettled ++ [x]) := by
  cases a with
  | put | send | accept | close => exact .inl (Option.some.inj h ▸ rfl)
  | take ch =>
    obtain ⟨⟨x, c⟩, htake, rfl⟩ := Option.map_eq_some_iff.mp h
    obtain ⟨-, -, rfl⟩ := take_spec htake
    exact .inl rfl
  | dispatch ch i =>
    obtain ⟨⟨x, c⟩, hc, rfl⟩ := Option.map_eq_some_iff.mp h
    obtain ⟨m, -, hc⟩ := Option.bind_eq_some_iff.mp hc
    split at hc <;> cases hc
    next hadmits =>
    cases auto with
    | false => exact .inr ⟨_, rfl, hadmits, rfl, fun _ => rfl⟩
    | true => exact .inr ⟨_, rfl, hadmits, rfl, fun h => by cases h⟩
  | process ch =>
    obtain ⟨f, -, rfl⟩ := Option.map_eq_some_iff.mp h
    dsimp only
    split
    · exact .inl rfl
    · exact .inl (apply_keeps _ _ _).2.1

/-- What is not answered on an open channel is unsettled. -/
theorem unanswered_le (hs : b.Sound) (hb : b.Pending false) {ch : Nat} (hopen : ch ∉ b.closed) :
    b.dispatched.countP (fun x => x.channel == ch && !b.answered x) ≤
      b.unsettled.countP (·.channel == ch) := by
  rw [List.countP_eq_length_filter, List.countP_eq_length_filter]
  have hnodup : b.dispatched.Nodup := List.Nodup.of_map _ hs.keys
  refine ((hnodup.filter _).subperm fun x hmem => ?_).length_le
  obtain ⟨hx, hch⟩ := List.mem_filter.mp hmem
  simp only [Bool.and_eq_true, beq_iff_eq, Bool.not_eq_true'] at hch
  obtain ⟨rfl, hnot⟩ := hch
  refine List.mem_filter.mpr ⟨?_, beq_self_eq_true _⟩
  rcases hb x hx hopen with hx | hauto | hany
  · exact hx
  · cases hauto
  · exact absurd (hnot.symm.trans hany) (by decide)

theorem windowed_step (hs : c.Sound) (hc : c.Pending false) (hb : b.Windowed n) {a : Action μ κ}
    (h : b.step false (some n) a = some c) : c.Windowed n := by
  intro ch
  have hless : ∀ l : List Dispatch, l.countP (fun x => x.channel == ch && !c.answered x) ≤
      l.countP (fun x => x.channel == ch && !b.answered x) := by
    refine fun l => List.countP_mono_left fun x _ hx => ?_
    simp only [Bool.and_eq_true, Bool.not_eq_true'] at hx ⊢
    refine ⟨hx.1, Bool.eq_false_iff.mpr fun hany => ?_⟩
    obtain ⟨f, hf, hsettles⟩ := List.any_eq_true.mp hany
    exact absurd (List.any_eq_true.mpr ⟨f, (done_step h).subset hf, hsettles⟩)
      (Bool.eq_false_iff.mp hx.2)
  rcases dispatched_step h with heq | ⟨x, heq, hadmits, hclosed, hunsettled⟩
  · rw [heq]
    exact (hless _).trans (hb ch)
  by_cases hch : x.channel = ch
  · subst hch
    obtain ⟨hopen, hroom⟩ := Bool.and_eq_true_iff.mp hadmits
    refine (unanswered_le hs hc ?_).trans ?_
    · rw [hclosed]
      simpa using hopen
    · rw [hunsettled rfl, List.countP_append, List.countP_singleton, if_pos (beq_self_eq_true _)]
      exact Nat.succ_le_of_lt (by simpa using hroom)
  · refine le_trans ?_ ((hless b.dispatched).trans (hb ch))
    rw [heq, List.countP_append, List.countP_singleton, if_neg (by simp [hch]), Nat.add_zero]

/-- **What is not answered is within the window.** -/
theorem windowed_of_reach {d : Broker μ κ → Action μ κ → Prop}
    (h : (machine μ κ false (some n)).Reach d b) : b.Windowed n := by
  refine Machine.Reach.invariant h (fun ch => Nat.zero_le n) fun b a c hb hd ih hstep => ?_
  have hc := hb.snoc hd hstep
  exact windowed_step (sound_of_reach hc) (pending_of_reach hc) ih hstep

end

end Broker

namespace Host

open Served

variable {σ α D μ κ Op : Type} {Ans : Op → Type} {ε τ : Type} {H : Host σ α D μ κ Op Ans ε τ}

/-- What a crew does to answer its delivery: it makes the call `calls` first, once, and its
programs owe that call. -/
structure Owes (H : Host σ α D μ κ Op Ans ε τ) (calls : Event Op Ans → Bool)
    (owes : Program Op Ans ε Unit → Nat) : Prop where
  once : ∀ d w, (crew (H.code d) H.spawn H.root).Reach (answers fun _ => True) w →
    w.trace.countP calls + (w.tasks.map fun t => owes t.rest).sum ≤ 1
  first : ∀ d w, (crew (H.code d) H.spawn H.root).Reach (answers fun _ => True) w →
    ∀ past e rest, w.trace = past ++ e :: rest → ∀ ch f ok tag,
      H.effect e = some (.send ch f, ok) → f.settled = some tag →
      H.key d = (ch, tag) ∧ past.any calls = true

variable {calls : Event Op Ans → Bool} {owes : Program Op Ans ε Unit → Nat} {n : Nat}
  {s : Served σ D μ κ Op Ans} {c : Served σ D μ κ Op Ans → Served.Action α μ → Prop}

/-- What the programs owe for the deliveries of the channel. -/
def owed (H : Host σ α D μ κ Op Ans ε τ) (owes : Program Op Ans ε Unit → Nat) (ch : Nat)
    (l : Multiset (D × Program Op Ans ε Unit)) : Nat :=
  (l.map fun x => if (H.key x.1).1 = ch then owes x.2 else 0).sum

theorem owed_add (ch : Nat) (l l' : Multiset (D × Program Op Ans ε Unit)) :
    H.owed owes ch (l + l') = H.owed owes ch l + H.owed owes ch l' := by
  simp only [owed, Multiset.map_add, Multiset.sum_add]

/-- The crews that have not made the call owe it. -/
theorem owed_programs (howes : H.Owes calls owes) (ch : Nat) {fam : List (D × Crew Op Ans ε τ)}
    (hfam : ∀ p ∈ fam, (crew (H.code p.1) H.spawn H.root).Reach (answers fun _ => True) p.2) :
    H.owed owes ch (programs fam) ≤
      fam.countP fun p => (H.key p.1).1 == ch && !p.2.trace.any calls := by
  induction fam with
  | nil => exact Nat.le_refl 0
  | cons p fam ih =>
    have hone := howes.once p.1 p.2 (hfam p List.mem_cons_self)
    have hp : H.owed owes ch (crewPrograms p.1 p.2) =
        if (H.key p.1).1 = ch then (p.2.tasks.map fun t => owes t.rest).sum else 0 := by
      simp only [owed, crewPrograms, Multiset.map_coe, List.map_map, Multiset.sum_coe]
      by_cases hch : (H.key p.1).1 = ch
      all_goals simp [hch, Function.comp_def]
    rw [programs_cons, owed_add, hp, List.countP_cons]
    have hih := ih fun q hq => hfam q (List.mem_cons_of_mem _ hq)
    split
    · next hch =>
      cases hany : p.2.trace.any calls with
      | false =>
        simp only [hch, beq_self_eq_true, Bool.not_false, Bool.and_true, if_true]
        omega
      | true =>
        have hpos : 0 < p.2.trace.countP calls := by
          obtain ⟨e, he, hcalls⟩ := List.any_eq_true.mp hany
          exact List.countP_pos_iff.mpr ⟨e, he, hcalls⟩
        omega
    · omega

/-- A delivery that is answered has made its call. -/
theorem called_of_answered (howes : H.Owes calls owes) {auto : Bool} {window : Option Nat}
    (h : (H.served auto window).Reach c s)
    {f : List (D × Crew Op Ans ε τ) × List (Nat × D × Event Op Ans)}
    (hreach : ∀ p ∈ f.1, (crew (H.code p.1) H.spawn H.root).Reach (answers fun _ => True) p.2)
    (hinterleaves : Interleaves f) (hruns : Runs H.left H.live (s.host, s.said) f)
    {p : D × Crew Op Ans ε τ} (hp : p ∈ f.1) {ch tag : Nat} (hkey : H.key p.1 = (ch, tag))
    (hdone : s.broker.done.any (Broker.settles ch tag) = true) :
    p.2.trace.any calls = true := by
  obtain ⟨⟨k, g⟩, hg, hsettles⟩ := List.any_eq_true.mp hdone
  obtain ⟨rfl, htag⟩ := Broker.settles_iff.mp hsettles
  have hs := sound_of_reach h
  obtain ⟨l, l', hsent, -⟩ := hs.before hg
  obtain ⟨earlier, x, later, ok, hlog, heffect, -⟩ := (tied_of_reach h).told.caused l k g l' hsent
  obtain ⟨n, w, past, rest, hn, htrace, -⟩ := hinterleaves.split (hruns.log.trans hlog)
  obtain ⟨hkey', hpast⟩ := howes.first x.1 w (hreach _ (List.mem_of_getElem? hn)) past x.2 rest
    htrace k g ok tag heffect htag
  have hkeys : (f.1.map fun p => H.key p.1).Nodup := by
    have htaken := (tied_of_reach h).taken
    rw [← hruns.data, List.map_map] at htaken
    exact htaken ▸ hs.taken_nodup
  have heq : p = (x.1, w) :=
    List.inj_on_of_nodup_map hkeys hp (List.mem_of_getElem? hn) (hkey.trans hkey'.symm)
  rw [heq, htrace, List.any_append, hpast, Bool.true_or]

/-- **What is owed on a channel is within the window.** -/
theorem owed_le (howes : H.Owes calls owes) (h : (H.served false (some n)).Reach c s) (ch : Nat) :
    H.owed owes ch (H.live s.host) ≤ n := by
  obtain ⟨f, hf, hinterleaves, hruns⟩ := exists_crews h
  have hreach := Machine.family_member hf
  have hs := sound_of_reach h
  obtain ⟨gone, hgone, -⟩ := hruns.live
  have hlive : H.owed owes ch (H.live s.host) ≤ H.owed owes ch (programs f.1) := by
    rw [hgone, owed_add]
    exact Nat.le_add_right _ _
  -- the deliveries that have not made the call are not answered
  let open' (key : Nat × Nat) : Bool :=
    key.1 == ch && !s.broker.done.any (Broker.settles key.1 key.2)
  have htaken : f.1.countP (fun p => (H.key p.1).1 == ch && !p.2.trace.any calls) ≤
      s.broker.taken.countP fun x => open' (x.channel, x.tag) := by
    have hkeys : f.1.map (fun p => H.key p.1) = s.broker.taken.map fun x => (x.channel, x.tag) := by
      rw [← (tied_of_reach h).taken, ← hruns.data, List.map_map]
      rfl
    have hcount : f.1.countP (fun p => open' (H.key p.1)) =
        s.broker.taken.countP fun x => open' (x.channel, x.tag) := by
      have := congrArg (List.countP open') hkeys
      rwa [List.countP_map, List.countP_map] at this
    rw [← hcount]
    refine List.countP_mono_left fun p hp hopen => ?_
    simp only [Bool.and_eq_true, Bool.not_eq_true', open'] at hopen ⊢
    refine ⟨hopen.1, Bool.eq_false_iff.mpr fun hdone => ?_⟩
    exact absurd (called_of_answered howes h hreach hinterleaves hruns hp rfl hdone)
      (Bool.eq_false_iff.mp hopen.2)
  have hdispatched : s.broker.taken.countP (fun x => open' (x.channel, x.tag)) ≤
      s.broker.dispatched.countP fun x => x.channel == ch && !s.broker.answered x := by
    have hperm : s.broker.dispatched.Perm (s.broker.taken ++ s.broker.transit) :=
      Multiset.coe_eq_coe.mp hs.carried
    rw [hperm.countP_eq, List.countP_append]
    exact Nat.le_add_right _ _
  exact hlive.trans ((owed_programs howes ch hreach).trans (htaken.trans (hdispatched.trans
    (Broker.windowed_of_reach (broker_of_reach h) ch))))

end Host

end Theory
