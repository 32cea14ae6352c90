import Mathlib.Data.List.Forall2
import MqAdapters.Theory.Machine
import MqAdapters.Theory.Program

/-!
# Crews: programs that start each other and interleave

A `Crew` is a list of programs under way together with the events they have
made so far.  Any program may make the next call, and an event can start
further programs (a job handed to a pool, a function queued for another
thread), so `crew code spawn root` moves through every interleaving of
everything the program `root` sets going.

Each program carries its `past`: its own events and those it inherited from the
program that started it.  Pasts are sequential, so `Program.wp` can be used on
them one program at a time, and the three rules say what that gives for the
interleaved trace.

* `crew_kept`: from one `wp` proof for each program, every event of the trace
  had its guard met by events before it, and every program that has ended meets
  its postcondition.
* `crew_solo`: as long as nothing is started, the past of the only program is
  the whole trace.
* `crew_spends`: a budget for each program bounds the cost of the trace.
* `crew_worth`: once every program has ended, the trace is worth what its first
  program is worth.
-/

namespace Theory

universe u v w z

/-- A program under way: its name, the events before it, and what is left. -/
structure Task (Op : Type u) (Ans : Op → Type v) (ε : Type w) (τ : Type z) where
  label : τ
  past : List (Event Op Ans)
  rest : Program Op Ans ε Unit

/-- Programs under way and the events made so far, in order. -/
structure Crew (Op : Type u) (Ans : Op → Type v) (ε : Type w) (τ : Type z) where
  tasks : List (Task Op Ans ε τ)
  trace : List (Event Op Ans)

namespace Crew

variable {Op : Type u} {Ans : Op → Type v} {ε : Type w} {τ : Type z}

/-- The event made when the `i`-th program calls its next operation. -/
def next (s : Crew Op Ans ε τ) (i : Nat) (ans : ∀ o, Ans o) : Option (Event Op Ans) :=
  (s.tasks[i]?).bind fun t =>
    match t.rest with
    | .call o _ => some ⟨o, ans o⟩
    | _ => none

/-- The `i`-th program calls its next operation and is answered by `ans`. -/
def step (code : τ → Program Op Ans ε Unit) (spawn : Event Op Ans → List τ)
    (s : Crew Op Ans ε τ) (i : Nat) (ans : ∀ o, Ans o) : Option (Crew Op Ans ε τ) :=
  (s.tasks[i]?).bind fun t =>
    match t.rest with
    | .call o k =>
      let past := t.past ++ [⟨o, ans o⟩]
      some {
        tasks := s.tasks.set i ⟨t.label, past, k (ans o)⟩
          ++ (spawn ⟨o, ans o⟩).map fun l => ⟨l, past, code l⟩
        trace := s.trace ++ [⟨o, ans o⟩] }
    | _ => none

/-- Every program has ended. -/
def Complete (s : Crew Op Ans ε τ) : Prop := ∀ t ∈ s.tasks, t.rest.done = true

theorem complete_of_all {s : Crew Op Ans ε τ} (h : (s.tasks.all fun t => t.rest.done) = true) :
    s.Complete :=
  List.all_eq_true.mp h

/-- How the first program ended, if it has. -/
def result (s : Crew Op Ans ε τ) : Option (Except ε Unit) :=
  s.tasks.head?.bind fun t =>
    match t.rest with
    | .pure a => some (.ok a)
    | .raise e => some (.error e)
    | .call _ _ => none

end Crew

open Crew

variable {Op : Type u} {Ans : Op → Type v} {ε : Type w} {τ : Type z}

/-- The machine of everything that the program `root` sets going. -/
def crew (code : τ → Program Op Ans ε Unit) (spawn : Event Op Ans → List τ) (root : τ) :
    Machine (Crew Op Ans ε τ) (Nat × (∀ o, Ans o)) where
  init := ⟨[⟨root, [], code root⟩], []⟩
  step s a := s.step code spawn a.1 a.2

/-- The condition that the operations called are answered as `allowed` says. -/
def answers (allowed : Event Op Ans → Prop) : Crew Op Ans ε τ → Nat × (∀ o, Ans o) → Prop :=
  fun s a => ∀ e, s.next a.1 a.2 = some e → allowed e

variable {code : τ → Program Op Ans ε Unit} {spawn : Event Op Ans → List τ} {root : τ}
  {allowed : Event Op Ans → Prop}

/-- What a step does, the program that moved taken out of the list. -/
theorem crew_step_cases {s s' : Crew Op Ans ε τ} {a : Nat × (∀ o, Ans o)}
    (h : (crew code spawn root).step s a = some s') :
    ∃ A B l past o k, s.tasks = A ++ ⟨l, past, .call o k⟩ :: B ∧
      s.next a.1 a.2 = some ⟨o, a.2 o⟩ ∧
      s' = ⟨(A ++ ⟨l, past ++ [⟨o, a.2 o⟩], k (a.2 o)⟩ :: B)
        ++ (spawn ⟨o, a.2 o⟩).map (fun l => ⟨l, past ++ [⟨o, a.2 o⟩], code l⟩),
        s.trace ++ [⟨o, a.2 o⟩]⟩ := by
  simp only [crew, Crew.step] at h
  obtain ⟨t, ht, h⟩ := Option.bind_eq_some_iff.mp h
  obtain ⟨l, past, rest⟩ := t
  cases rest with
  | pure _ => exact absurd h (by simp)
  | raise _ => exact absurd h (by simp)
  | call o k =>
    simp only [Option.some.injEq] at h
    obtain ⟨hi, hg⟩ := List.getElem?_eq_some_iff.mp ht
    refine ⟨s.tasks.take a.1, s.tasks.drop (a.1 + 1), l, past, o, k, ?_, ?_, ?_⟩
    · rw [← hg, List.getElem_cons_drop, List.take_append_drop]
    · simp [Crew.next, ht]
    · rw [← h, List.set_eq_take_append_cons_drop, if_pos hi]

/-- Where an event stands in a trace that has just grown by one. -/
theorem split_concat {X : Type*} {l p q : List X} {a e : X} (h : l ++ [a] = p ++ e :: q) :
    (p = l ∧ e = a) ∨ ∃ q', l = p ++ e :: q' := by
  rcases List.eq_nil_or_concat q with rfl | ⟨q', b, rfl⟩
  · obtain ⟨rfl, he⟩ := List.append_inj' h rfl
    exact Or.inl ⟨rfl, (List.singleton_inj.mp he).symm⟩
  · rw [List.concat_eq_append, ← List.cons_append, ← List.append_assoc] at h
    exact Or.inr ⟨q', (List.append_inj' h rfl).1⟩

/-! ## Runs against fixed answers -/

/-- Let the programs with the given positions move in turn, against fixed
answers; one that cannot move is passed over. -/
def play (code : τ → Program Op Ans ε Unit) (spawn : Event Op Ans → List τ) (ans : ∀ o, Ans o) :
    Crew Op Ans ε τ → List Nat → Crew Op Ans ε τ
  | s, [] => s
  | s, i :: is => play code spawn ans ((s.step code spawn i ans).getD s) is

theorem play_reach {ans : ∀ o, Ans o} (hall : ∀ o, allowed ⟨o, ans o⟩) (is : List Nat) :
    ∀ {s : Crew Op Ans ε τ}, (crew code spawn root).Reach (answers allowed) s →
      (crew code spawn root).Reach (answers allowed) (play code spawn ans s is) := by
  induction is with
  | nil => exact fun hs => hs
  | cons i is ih =>
    intro s hs
    refine ih ?_
    rcases ht : s.step code spawn i ans with _ | t
    · exact hs
    · refine hs.snoc (a := (i, ans)) (fun e he => ?_) ht
      obtain ⟨t, -, ht⟩ := Option.bind_eq_some_iff.mp he
      rcases t with ⟨l, past, _ | _ | ⟨o, k⟩⟩
      · exact absurd ht (by simp)
      · exact absurd ht (by simp)
      · rw [← Option.some.inj ht]
        exact hall o

/-- The programs that `events`, made after `past`, start. -/
def spawned (code : τ → Program Op Ans ε Unit) (spawn : Event Op Ans → List τ) :
    List (Event Op Ans) → List (Event Op Ans) → List (Task Op Ans ε τ)
  | _, [] => []
  | past, e :: events =>
    (spawn e).map (fun l => ⟨l, past ++ [e], code l⟩) ++ spawned code spawn (past ++ [e]) events

section

variable {ans : ∀ o, Ans o}

theorem play_append (is js : List Nat) : ∀ s : Crew Op Ans ε τ,
    play code spawn ans s (is ++ js) = play code spawn ans (play code spawn ans s is) js := by
  induction is with
  | nil => exact fun _ => rfl
  | cons i is ih => exact fun s => ih _

/-- A program that cannot move is passed over. -/
theorem play_of_stuck {s : Crew Op Ans ε τ} {i : Nat} (h : s.step code spawn i ans = none)
    (n : Nat) : play code spawn ans s (List.replicate n i) = s := by
  induction n with
  | zero => rfl
  | succ n ih => rw [List.replicate_succ, play, h, Option.getD_none, ih]

theorem step_append (A B : List (Task Op Ans ε τ)) (l : τ) (past trace : List (Event Op Ans))
    (o : Op) (k : Ans o → Program Op Ans ε Unit) :
    (⟨A ++ ⟨l, past, .call o k⟩ :: B, trace⟩ : Crew Op Ans ε τ).step code spawn A.length ans =
      some ⟨A ++ ⟨l, past ++ [⟨o, ans o⟩], k (ans o)⟩ ::
        (B ++ (spawn ⟨o, ans o⟩).map fun l => ⟨l, past ++ [⟨o, ans o⟩], code l⟩),
        trace ++ [⟨o, ans o⟩]⟩ := by
  simp [Crew.step]

/-- **A program that moves often enough runs to its end**, and the programs that
it starts come last. -/
theorem play_replicate {A : List (Task Op Ans ε τ)} {i : Nat} (hi : A.length = i) (l : τ)
    (p : Program Op Ans ε Unit) :
    ∀ (B : List (Task Op Ans ε τ)) (past trace : List (Event Op Ans)) (n : Nat),
      (p.exec ans).1.length ≤ n →
      play code spawn ans ⟨A ++ ⟨l, past, p⟩ :: B, trace⟩ (List.replicate n i) =
        ⟨A ++ ⟨l, past ++ (p.exec ans).1, .ofExcept (p.exec ans).2⟩ ::
          (B ++ spawned code spawn past (p.exec ans).1), trace ++ (p.exec ans).1⟩ := by
  subst hi
  induction p with
  | pure a =>
    intro B past trace n _
    rw [play_of_stuck (by simp [Crew.step])]
    simp [spawned]
  | raise e =>
    intro B past trace n _
    rw [play_of_stuck (by simp [Crew.step])]
    simp [spawned]
  | call o k ih =>
    intro B past trace n hn
    obtain ⟨n, rfl⟩ : ∃ m, n = m + 1 := Nat.exists_eq_succ_of_ne_zero (by
      rw [Program.exec_call, List.length_cons] at hn
      omega)
    rw [List.replicate_succ, play, step_append, Option.getD_some, ih]
    · simp [spawned]
    · simpa using hn

/-- The same for a program whose calls and result are known. -/
theorem play_exec {A B : List (Task Op Ans ε τ)} {i : Nat} (hi : A.length = i) {l : τ}
    {p : Program Op Ans ε Unit} {past trace events : List (Event Op Ans)} {r : Except ε Unit}
    (hp : p.exec ans = (events, r)) {n : Nat} (hn : events.length ≤ n) :
    play code spawn ans ⟨A ++ ⟨l, past, p⟩ :: B, trace⟩ (List.replicate n i) =
      ⟨A ++ ⟨l, past ++ events, .ofExcept r⟩ :: (B ++ spawned code spawn past events),
        trace ++ events⟩ := by
  rw [play_replicate hi l p B past trace n (by rw [hp]; exact hn), hp]

end

/-! ## Guards and postconditions -/

/-- What one `wp` proof for each program gives for the whole crew. -/
structure Kept (R : Program.Rules Op Ans τ)
    (post : τ → List (Event Op Ans) → Except ε Unit → Prop) (root : τ)
    (s : Crew Op Ans ε τ) : Prop where
  tasks : ∀ t ∈ s.tasks, t.rest.wp R (post t.label) t.past ∧ t.past.Sublist s.trace
  guarded : ∀ p e q, s.trace = p ++ e :: q → ∃ h, h.Sublist p ∧ R.guard h e.op
  started : ∀ e ∈ s.trace, ∀ l ∈ R.spawn e, ∃ t ∈ s.tasks, t.label = l
  root : ∃ t ∈ s.tasks, t.label = root
  allowed : ∀ e ∈ s.trace, R.allowed e

/-- **Soundness of `wp` for crews.**  Each program is verified on its own, from
every past that meets its precondition. -/
theorem crew_kept {R : Program.Rules Op Ans τ}
    {post : τ → List (Event Op Ans) → Except ε Unit → Prop}
    (hcode : ∀ l h, R.pre l h → (code l).wp R (post l) h) (hroot : R.pre root [])
    {s : Crew Op Ans ε τ} (hs : (crew code R.spawn root).Reach (answers R.allowed) s) :
    Kept R post root s := by
  refine Machine.Path.invariant (P := Kept R post root) hs ?_ ?_
  · refine ⟨fun t ht => ?_, fun p e q h => absurd h (by simp [crew]),
      fun e he => absurd he (by simp [crew]), ⟨_, List.mem_singleton_self _, rfl⟩,
      fun e he => absurd he (by simp [crew])⟩
    rw [List.mem_singleton.mp ht]
    exact ⟨hcode root [] hroot, List.Sublist.refl []⟩
  · intro s a s' ha hk hstep
    obtain ⟨A, B, l, past, o, k, htasks, hnext, rfl⟩ := crew_step_cases hstep
    have hall := ha _ hnext
    obtain ⟨hwp, hpast⟩ := hk.tasks ⟨l, past, .call o k⟩ (by simp [htasks])
    obtain ⟨hguard, hrest⟩ := hwp
    obtain ⟨hpre, hk'⟩ := hrest (a.2 o) hall
    have hgrow := hpast.append_right [(⟨o, a.2 o⟩ : Event Op Ans)]
    -- the programs under way keep their names
    have hstill : ∀ t ∈ s.tasks, ∀ {l'}, t.label = l' → ∃ t' ∈
        (A ++ ⟨l, past ++ [⟨o, a.2 o⟩], k (a.2 o)⟩ :: B : List (Task Op Ans ε τ))
          ++ (R.spawn ⟨o, a.2 o⟩).map (fun l => ⟨l, past ++ [⟨o, a.2 o⟩], code l⟩),
        t'.label = l' := by
      intro t ht l' hl
      rw [htasks, List.mem_append, List.mem_cons] at ht
      rcases ht with ht | rfl | ht
      · exact ⟨t, by simp [ht], hl⟩
      · exact ⟨⟨l, past ++ [⟨o, a.2 o⟩], k (a.2 o)⟩, by simp, hl⟩
      · exact ⟨t, by simp [ht], hl⟩
    refine ⟨?_, ?_, ?_, ?_, ?_⟩
    · intro t ht
      simp only [List.mem_append, List.mem_cons, List.mem_map] at ht
      rcases ht with (ht | rfl | ht) | ⟨l', hl', rfl⟩
      · obtain ⟨h1, h2⟩ := hk.tasks t (by simp [htasks, ht])
        exact ⟨h1, h2.trans (List.sublist_append_left _ _)⟩
      · exact ⟨hk', hgrow⟩
      · obtain ⟨h1, h2⟩ := hk.tasks t (by simp [htasks, ht])
        exact ⟨h1, h2.trans (List.sublist_append_left _ _)⟩
      · exact ⟨hcode l' _ (hpre l' hl'), hgrow⟩
    · intro p e q h
      rcases split_concat h with ⟨rfl, rfl⟩ | ⟨q', hq⟩
      · exact ⟨past, hpast, hguard⟩
      · exact hk.guarded p e q' hq
    · intro e he l' hl'
      rcases List.mem_append.mp he with he | he
      · obtain ⟨t, ht, hl⟩ := hk.started e he l' hl'
        exact hstill t ht hl
      · rw [List.mem_singleton.mp he] at hl'
        exact ⟨⟨l', past ++ [⟨o, a.2 o⟩], code l'⟩,
          List.mem_append_right _ (List.mem_map_of_mem hl'), rfl⟩
    · obtain ⟨t, ht, hl⟩ := hk.root
      exact hstill t ht hl
    · intro e he
      rcases List.mem_append.mp he with he | he
      · exact hk.allowed e he
      · rw [List.mem_singleton.mp he]; exact hall

/-- A program that has ended meets its postcondition, on a past that is part of
the trace. -/
theorem Kept.ended {R : Program.Rules Op Ans τ}
    {post : τ → List (Event Op Ans) → Except ε Unit → Prop} {s : Crew Op Ans ε τ}
    (h : Kept R post root s) (hc : s.Complete) {t : Task Op Ans ε τ} (ht : t ∈ s.tasks) :
    ∃ p r, p.Sublist s.trace ∧ post t.label p r := by
  obtain ⟨hwp, hpast⟩ := h.tasks t ht
  have hd := hc t ht
  obtain ⟨l, past, rest⟩ := t
  cases rest with
  | pure a => exact ⟨past, .ok a, hpast, hwp⟩
  | raise e => exact ⟨past, .error e, hpast, hwp⟩
  | call o k => exact absurd hd (by simp [Program.done])

/-- **A crew that has started nothing** is its first program, and the trace is
that program's past. -/
theorem crew_solo {c : Crew Op Ans ε τ → Nat × (∀ o, Ans o) → Prop} {s : Crew Op Ans ε τ}
    (hs : (crew code spawn root).Reach c s) (hspawn : ∀ e ∈ s.trace, spawn e = []) :
    ∃ t, s.tasks = [t] ∧ t.label = root ∧ t.past = s.trace := by
  refine Machine.Path.invariant
    (P := fun s => (∀ e ∈ s.trace, spawn e = []) →
      ∃ t, s.tasks = [t] ∧ t.label = root ∧ t.past = s.trace) hs
    (fun _ => ⟨_, rfl, rfl, rfl⟩) ?_ hspawn
  intro s a s' _ ih hstep hspawn
  obtain ⟨A, B, l, past, o, k, htasks, -, rfl⟩ := crew_step_cases hstep
  obtain ⟨t, ht, hl, hp⟩ := ih fun e he => hspawn e (List.mem_append_left _ he)
  have hnone := hspawn ⟨o, a.2 o⟩ (by simp)
  rw [ht] at htasks
  obtain ⟨rfl, rfl, rfl⟩ : A = [] ∧ t = ⟨l, past, .call o k⟩ ∧ B = [] := by
    rcases A with - | ⟨b, A⟩
    · simpa using htasks
    · exact absurd htasks (by simp)
  simp only at hl hp
  refine ⟨⟨l, past ++ [⟨o, a.2 o⟩], k (a.2 o)⟩, ?_, hl, by rw [hp]⟩
  simp only [hnone, List.map_nil, List.append_nil, List.nil_append]

/-- Every event of the trace was answered as allowed. -/
theorem trace_allowed {s : Crew Op Ans ε τ}
    (hs : (crew code spawn root).Reach (answers allowed) s) : ∀ e ∈ s.trace, allowed e := by
  have hk : Kept (Program.free allowed spawn) (fun _ _ _ => True) root s :=
    crew_kept (fun l h _ => Program.wp_trivial (fun _ _ => trivial) (fun _ _ => trivial)
      (fun _ _ _ _ => trivial) _ _) trivial hs
  exact hk.allowed

/-- The first program stays the first. -/
theorem crew_head {c : Crew Op Ans ε τ → Nat × (∀ o, Ans o) → Prop} {s : Crew Op Ans ε τ}
    (hs : (crew code spawn root).Reach c s) : ∃ t ts, s.tasks = t :: ts ∧ t.label = root := by
  refine Machine.Path.invariant (P := fun s => ∃ t ts, s.tasks = t :: ts ∧ t.label = root) hs
    ⟨_, _, rfl, rfl⟩ ?_
  rintro s a s' - ⟨t, ts, htasks, hlabel⟩ hstep
  obtain ⟨A, B, l, past, o, k, hAB, -, rfl⟩ := crew_step_cases hstep
  rw [htasks] at hAB
  rcases A with _ | ⟨b, A⟩
  · obtain ⟨rfl, -⟩ := List.cons.inj hAB
    exact ⟨_, _, rfl, hlabel⟩
  · obtain ⟨rfl, -⟩ := List.cons.inj hAB
    exact ⟨_, _, rfl, hlabel⟩

/-- The first program ends as its postcondition says. -/
theorem Kept.result {R : Program.Rules Op Ans τ}
    {post : τ → List (Event Op Ans) → Except ε Unit → Prop} {s : Crew Op Ans ε τ}
    {c : Crew Op Ans ε τ → Nat × (∀ o, Ans o) → Prop} (h : Kept R post root s)
    (hs : (crew code spawn root).Reach c s) {r : Except ε Unit} (hr : s.result = some r) :
    ∃ past, post root past r := by
  obtain ⟨⟨l, past, rest⟩, ts, htasks, rfl⟩ := crew_head hs
  obtain ⟨hwp, -⟩ := h.tasks _ (htasks ▸ List.mem_cons_self)
  rw [Crew.result, htasks, List.head?_cons, Option.bind_some] at hr
  cases rest with
  | pure a => exact ⟨past, Option.some.inj hr ▸ hwp⟩
  | raise e => exact ⟨past, Option.some.inj hr ▸ hwp⟩
  | call o k => exact absurd hr (by simp)

/-- In a complete crew the first program has ended. -/
theorem exists_result {c : Crew Op Ans ε τ → Nat × (∀ o, Ans o) → Prop} {s : Crew Op Ans ε τ}
    (hs : (crew code spawn root).Reach c s) (hc : s.Complete) : ∃ r, s.result = some r := by
  obtain ⟨⟨l, past, rest⟩, ts, htasks, -⟩ := crew_head hs
  have hdone := hc _ (htasks ▸ List.mem_cons_self)
  rw [Crew.result, htasks, List.head?_cons, Option.bind_some]
  cases rest with
  | pure a => exact ⟨_, rfl⟩
  | raise e => exact ⟨_, rfl⟩
  | call o k => exact absurd hdone (by simp [Program.done])

/-- What a crew of one program gives: the postcondition holds of the trace. -/
theorem Kept.solo {R : Program.Rules Op Ans τ}
    {post : τ → List (Event Op Ans) → Except ε Unit → Prop} {s : Crew Op Ans ε τ}
    {c : Crew Op Ans ε τ → Nat × (∀ o, Ans o) → Prop} (h : Kept R post root s)
    (hs : (crew code spawn root).Reach c s) (hspawn : ∀ e ∈ s.trace, spawn e = [])
    (hc : s.Complete) : ∃ r, post root s.trace r := by
  obtain ⟨⟨l, past, rest⟩, ht, rfl, rfl⟩ := crew_solo hs hspawn
  obtain ⟨hwp, -⟩ := h.tasks _ (ht ▸ List.mem_singleton_self _)
  have hd := hc _ (ht ▸ List.mem_singleton_self _)
  cases rest with
  | pure a => exact ⟨.ok a, hwp⟩
  | raise e => exact ⟨.error e, hwp⟩
  | call o k => exact absurd hd (by simp [Program.done])

/-- A run in which every answer also satisfies `allowed'`. -/
theorem crew_restrict {allowed' : Event Op Ans → Prop}
    {c : Crew Op Ans ε τ → Nat × (∀ o, Ans o) → Prop} {s : Crew Op Ans ε τ}
    (hs : (crew code spawn root).Reach c s)
    (hall : ∀ e ∈ s.trace, allowed' e) :
    (crew code spawn root).Reach (answers allowed') s := by
  refine Machine.Path.invariant
    (P := fun s => (∀ e ∈ s.trace, allowed' e) →
      (crew code spawn root).Reach (answers allowed') s) hs
    (fun _ => Machine.Reach.init) ?_ hall
  intro s a s' _ ih hstep hall
  obtain ⟨A, B, l, past, o, k, -, hnext, rfl⟩ := crew_step_cases hstep
  refine (ih fun e he => hall e (List.mem_append_left _ he)).snoc (a := a) ?_ hstep
  intro e he
  rw [hnext, Option.some.injEq] at he
  exact hall e (by simp [he])

/-! ## Budgets -/

/-- Every program under way keeps what is left of its budget. -/
theorem crew_funds {cost : Event Op Ans → Nat} (fund : τ → Nat)
    (hans : ∀ o, ∃ r, allowed ⟨o, r⟩)
    (hwp : ∀ l, (code l).wp (Program.free allowed spawn)
      (fun h _ => Program.spent cost spawn fund h ≤ fund l) [])
    {s : Crew Op Ans ε τ} (hs : (crew code spawn root).Reach (answers allowed) s) :
    ∃ ns : List Nat, List.Forall₂
      (fun n (t : Task Op Ans ε τ) => t.rest.Spends allowed cost spawn fund n) ns s.tasks ∧
      (s.trace.map cost).sum + ns.sum ≤ fund root := by
  have hcode : ∀ l, (code l).Spends allowed cost spawn fund (fund l) :=
    fun l => Program.spends_of_wp hans (code l) [] (hwp l)
  refine Machine.Path.invariant (P := fun s => ∃ ns : List Nat, List.Forall₂
      (fun n (t : Task Op Ans ε τ) => t.rest.Spends allowed cost spawn fund n) ns s.tasks ∧
      (s.trace.map cost).sum + ns.sum ≤ fund root) hs ?_ ?_
  · exact ⟨[fund root], by simpa [crew] using hcode root, by simp [crew]⟩
  · rintro s a s' ha ⟨ns, hns, hsum⟩ hstep
    obtain ⟨A, B, l, past, o, k, htasks, hnext, rfl⟩ := crew_step_cases hstep
    rw [htasks] at hns
    have hA := List.forall₂_take_append ns A _ hns
    have hB' := List.forall₂_drop_append ns A _ hns
    have hcut : (ns.take A.length).sum + (ns.drop A.length).sum = ns.sum := by
      rw [← List.sum_append, List.take_append_drop]
    obtain ⟨n, nB, hn, hB, hd⟩ := List.forall₂_cons_right_iff.mp hB'
    rw [hd, List.sum_cons] at hcut
    obtain ⟨hle, hrest⟩ := hn (a.2 o) (ha _ hnext)
    set e : Event Op Ans := ⟨o, a.2 o⟩
    refine ⟨(ns.take A.length ++ (n - (cost e + ((spawn e).map fund).sum)) :: nB) ++
      (spawn e).map fund, ?_, ?_⟩
    · refine List.rel_append (List.rel_append hA (.cons hrest hB)) ?_
      rw [List.forall₂_map_left_iff, List.forall₂_map_right_iff, List.forall₂_same]
      exact fun l _ => hcode l
    · simp only [List.map_append, List.sum_append, List.sum_cons, List.map_cons, List.map_nil,
        List.sum_nil] at hsum ⊢
      omega

/-- **The cost of a trace is at most the budget of its first program**, when
each program keeps within its own. -/
theorem crew_spends {cost : Event Op Ans → Nat} (fund : τ → Nat)
    (hans : ∀ o, ∃ r, allowed ⟨o, r⟩)
    (hwp : ∀ l, (code l).wp (Program.free allowed spawn)
      (fun h _ => Program.spent cost spawn fund h ≤ fund l) [])
    {s : Crew Op Ans ε τ} (hs : (crew code spawn root).Reach (answers allowed) s) :
    (s.trace.map cost).sum ≤ fund root := by
  obtain ⟨ns, -, h⟩ := crew_funds fund hans hwp hs
  omega

/-- What the programs under way owe is left of that budget. -/
theorem crew_owes {cost : Event Op Ans → Nat} (fund : τ → Nat)
    (hans : ∀ o, ∃ r, allowed ⟨o, r⟩)
    (hwp : ∀ l, (code l).wp (Program.free allowed spawn)
      (fun h _ => Program.spent cost spawn fund h ≤ fund l) [])
    {owes : Program Op Ans ε Unit → Nat}
    (howes : ∀ p n, p.Spends allowed cost spawn fund n → owes p ≤ n)
    {s : Crew Op Ans ε τ} (hs : (crew code spawn root).Reach (answers allowed) s) :
    (s.trace.map cost).sum + (s.tasks.map fun t => owes t.rest).sum ≤ fund root := by
  obtain ⟨ns, hns, hsum⟩ := crew_funds fund hans hwp hs
  have howed : (s.tasks.map fun t => owes t.rest).sum ≤ ns.sum := by
    clear hsum hs
    generalize s.tasks = ts at hns
    induction hns with
    | nil => exact Nat.le_refl 0
    | cons hn _ ih =>
      rw [List.map_cons, List.sum_cons, List.sum_cons]
      exact Nat.add_le_add (howes _ _ hn) ih
  omega

/-- **A complete trace is worth what its first program is worth**, when each program
is worth the same whichever way it goes. -/
theorem crew_worth {value : Event Op Ans → ℤ} (fund : τ → ℤ)
    (hwp : ∀ l, (code l).wp (Program.free allowed spawn)
      (fun h _ => Program.net value spawn fund h = fund l) [])
    {s : Crew Op Ans ε τ} (hs : (crew code spawn root).Reach (answers allowed) s)
    (hc : s.Complete) : (s.trace.map value).sum = fund root := by
  have hcode : ∀ l, (code l).Worth allowed value spawn fund (fund l) := fun l => by
    simpa using Program.worth_of_wp (code l) [] (hwp l)
  -- every program under way is worth what is left of it
  obtain ⟨ns, hns, hsum⟩ : ∃ ns : List ℤ, List.Forall₂
      (fun n (t : Task Op Ans ε τ) => t.rest.Worth allowed value spawn fund n) ns s.tasks ∧
      (s.trace.map value).sum + ns.sum = fund root := by
    refine Machine.Path.invariant (P := fun s => ∃ ns : List ℤ, List.Forall₂
        (fun n (t : Task Op Ans ε τ) => t.rest.Worth allowed value spawn fund n) ns s.tasks ∧
        (s.trace.map value).sum + ns.sum = fund root) hs ?_ ?_
    · exact ⟨[fund root], by simpa [crew] using hcode root, by simp [crew]⟩
    · rintro s a s' ha ⟨ns, hns, hsum⟩ hstep
      obtain ⟨A, B, l, past, o, k, htasks, hnext, rfl⟩ := crew_step_cases hstep
      rw [htasks] at hns
      have hA := List.forall₂_take_append ns A _ hns
      have hB' := List.forall₂_drop_append ns A _ hns
      have hcut : (ns.take A.length).sum + (ns.drop A.length).sum = ns.sum := by
        rw [← List.sum_append, List.take_append_drop]
      obtain ⟨n, nB, hn, hB, hd⟩ := List.forall₂_cons_right_iff.mp hB'
      rw [hd, List.sum_cons] at hcut
      have hrest := hn (a.2 o) (ha _ hnext)
      set e : Event Op Ans := ⟨o, a.2 o⟩
      refine ⟨(ns.take A.length ++ (n - (value e + ((spawn e).map fund).sum)) :: nB) ++
        (spawn e).map fund, ?_, ?_⟩
      · refine List.rel_append (List.rel_append hA (.cons hrest hB)) ?_
        rw [List.forall₂_map_left_iff, List.forall₂_map_right_iff, List.forall₂_same]
        exact fun l _ => hcode l
      · simp only [List.map_append, List.sum_append, List.sum_cons, List.map_cons, List.map_nil,
          List.sum_nil] at hsum ⊢
        omega
  -- nothing is left
  have hnone : ns.sum = 0 := by
    have hdone : ∀ t ∈ s.tasks, t.rest.done = true := hc
    clear hsum hc hs
    generalize s.tasks = ts at hns hdone
    induction hns with
    | nil => rfl
    | cons hn _ ih =>
      rw [List.sum_cons, hn.done (hdone _ List.mem_cons_self),
        ih fun t ht => hdone t (List.mem_cons_of_mem _ ht), Int.zero_add]
  omega

end Theory
