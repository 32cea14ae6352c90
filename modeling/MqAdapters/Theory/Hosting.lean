import Mathlib.Algebra.BigOperators.Group.Multiset.Basic
import Mathlib.Algebra.Order.Group.Multiset
import Mathlib.Tactic.Abel
import MqAdapters.Theory.Crew
import MqAdapters.Theory.Lists

/-!
# Machines that host crews

A `Machine` with threads of its own often runs programs for many data at once: each
datum that arrives starts a program, and a step of a thread answers one call of one of
them.  `Change` says what such a step does to the programs under way.

* `exists_family`: a machine whose steps are `Change`s runs a family of crews, one for
  each datum that has arrived, and its log is an interleaving of their traces.
* `trace_of_log`: what the log has of one crew is the trace of that crew.
* `Interleaves.split`: so each event of the log is an event of a crew, and the events of
  that crew before it are before it in the log as well.

What is proved of every crew on its own thereby holds of the machine.
-/

namespace Theory

universe u v w x y z

variable {D : Type x} {Op : Type u} {Ans : Op → Type v} {ε : Type w} {τ : Type z}

/-! ## Lists as multisets -/

theorem coe_set {X : Type*} {l : List X} {i : Nat} {x : X} (h : l[i]? = some x) (y : X) :
    x ::ₘ (↑(l.set i y) : Multiset X) = y ::ₘ ↑l := by
  obtain ⟨hlt, rfl⟩ := List.getElem?_eq_some_iff.mp h
  have hl : l = l.take i ++ l[i] :: l.drop (i + 1) := by
    rw [List.getElem_cons_drop, List.take_append_drop]
  rw [List.set_eq_take_append_cons_drop, if_pos hlt, Multiset.cons_coe, Multiset.cons_coe,
    Multiset.coe_eq_coe]
  refine ((List.perm_middle).cons _).trans ((List.Perm.swap _ _ _).trans (List.Perm.cons _ ?_))
  conv_rhs => rw [hl]
  exact List.perm_middle.symm

theorem coe_eraseIdx {X : Type*} {l : List X} {i : Nat} {x : X} (h : l[i]? = some x) :
    x ::ₘ (↑(l.eraseIdx i) : Multiset X) = ↑l := by
  obtain ⟨hlt, rfl⟩ := List.getElem?_eq_some_iff.mp h
  rw [Multiset.cons_coe, Multiset.coe_eq_coe]
  exact List.getElem_cons_eraseIdx_perm hlt

/-! ## The programs of a family -/

/-- The programs of a crew, with its datum. -/
def crewPrograms (d : D) (c : Crew Op Ans ε τ) : Multiset (D × Program Op Ans ε Unit) :=
  ↑(c.tasks.map fun t => (d, t.rest))

/-- The programs of all crews. -/
def programs (fam : List (D × Crew Op Ans ε τ)) : Multiset (D × Program Op Ans ε Unit) :=
  (fam.map fun p => crewPrograms p.1 p.2).sum

@[simp] theorem programs_nil : programs ([] : List (D × Crew Op Ans ε τ)) = 0 := rfl

@[simp] theorem programs_append (fam fam' : List (D × Crew Op Ans ε τ)) :
    programs (fam ++ fam') = programs fam + programs fam' := by
  simp [programs]

@[simp] theorem programs_cons (p : D × Crew Op Ans ε τ) (fam : List (D × Crew Op Ans ε τ)) :
    programs (p :: fam) = crewPrograms p.1 p.2 + programs fam := by
  simp [programs]

theorem mem_programs {fam : List (D × Crew Op Ans ε τ)} {d : D} {c : Crew Op Ans ε τ}
    {t : Task Op Ans ε τ} (hc : (d, c) ∈ fam) (ht : t ∈ c.tasks) :
    (d, t.rest) ∈ programs fam := by
  induction fam with
  | nil => exact absurd hc List.not_mem_nil
  | cons q fam ih =>
    rw [programs_cons, Multiset.mem_add]
    rcases List.mem_cons.mp hc with rfl | hc
    · exact .inl (Multiset.mem_coe.mpr (List.mem_map_of_mem ht))
    · exact .inr (ih hc)

/-- A program belongs to one of the crews. -/
theorem exists_crew {fam : List (D × Crew Op Ans ε τ)} {d : D} {p : Program Op Ans ε Unit}
    (h : (d, p) ∈ programs fam) :
    ∃ (n i : Nat) (c : Crew Op Ans ε τ) (l : τ) (past : List (Event Op Ans)),
      fam[n]? = some (d, c) ∧ c.tasks[i]? = some ⟨l, past, p⟩ := by
  induction fam with
  | nil => exact absurd h (Multiset.notMem_zero _)
  | cons q fam ih =>
    rw [programs_cons, Multiset.mem_add] at h
    rcases h with h | h
    · obtain ⟨⟨l, past, rest⟩, ht, heq⟩ := List.mem_map.mp (Multiset.mem_coe.mp h)
      obtain ⟨rfl, rfl⟩ := Prod.mk.inj heq
      obtain ⟨i, hi⟩ := List.mem_iff_getElem?.mp ht
      exact ⟨0, i, q.2, l, past, rfl, hi⟩
    · obtain ⟨n, i, c, l, past, hn, hi⟩ := ih h
      exact ⟨n + 1, i, c, l, past, hn, hi⟩

section

variable (code : D → τ → Program Op Ans ε Unit) (spawn : Event Op Ans → List τ) (root : τ)

/-- One crew for each datum that arrives. -/
abbrev crews : Machine (List (D × Crew Op Ans ε τ)) (D ⊕ (Nat × Nat × (∀ o, Ans o))) :=
  Machine.family fun d => crew (code d) spawn root

/-- The event of a step, with its crew. -/
def told (fam : List (D × Crew Op Ans ε τ)) :
    D ⊕ (Nat × Nat × (∀ o, Ans o)) → Option (Nat × D × Event Op Ans)
  | .inl _ => none
  | .inr (n, a) => (fam[n]?).bind fun p => (p.2.next a.1 a.2).map fun e => (n, p.1, e)

/-- The programs that an event starts. -/
def starts (d : D) (e : Event Op Ans) : Multiset (D × Program Op Ans ε Unit) :=
  ↑((spawn e).map fun l => (d, code d l))

/-- The program is over. -/
abbrev Over (p : Program Op Ans ε Unit) : Prop := p.done = true

variable (left : Program Op Ans ε Unit → Prop)

/-- The programs `live` are all but some that may be left. -/
def Covers (all live : Multiset (D × Program Op Ans ε Unit)) : Prop :=
  ∃ gone, all = live + gone ∧ ∀ x ∈ gone, left x.2

/-- What a step of the host may do to its programs, and what it says: some are left, a
datum arrives, or a call is answered. -/
inductive Change (before after : Multiset (D × Program Op Ans ε Unit)) :
    Option (D ⊕ (D × Event Op Ans)) → Prop
  | rest (h : Covers left before after) : Change before after none
  | arrive (d : D) (h : Covers left ((d, code d root) ::ₘ before) after) :
      Change before after (some (.inl d))
  | answer (d : D) (o : Op) (k : Ans o → Program Op Ans ε Unit) (r : Ans o)
      (others : Multiset (D × Program Op Ans ε Unit)) (hb : before = (d, .call o k) ::ₘ others)
      (h : Covers left ((d, k r) ::ₘ (starts code spawn d ⟨o, r⟩ + others)) after) :
      Change before after (some (.inr (d, ⟨o, r⟩)))

end

variable {code : D → τ → Program Op Ans ε Unit} {spawn : Event Op Ans → List τ} {root : τ}
  {P : Event Op Ans → Prop} {left : Program Op Ans ε Unit → Prop}

theorem Covers.of_eq {all live : Multiset (D × Program Op Ans ε Unit)} (h : all = live) :
    Covers left all live :=
  ⟨0, by rw [h, add_zero], fun _ hx => absurd hx (Multiset.notMem_zero _)⟩

theorem Covers.cons {live : Multiset (D × Program Op Ans ε Unit)}
    {p : D × Program Op Ans ε Unit} (h : left p.2) : Covers left (p ::ₘ live) live :=
  ⟨{p}, by rw [Multiset.add_comm, Multiset.singleton_add], fun x hx => by
    rw [Multiset.mem_singleton.mp hx]
    exact h⟩

theorem Covers.trans {all some live : Multiset (D × Program Op Ans ε Unit)}
    (h : Covers left all some) (h' : Covers left some live) : Covers left all live := by
  obtain ⟨gone, rfl, hgone⟩ := h
  obtain ⟨gone', rfl, hgone'⟩ := h'
  exact ⟨gone' + gone, Multiset.add_assoc _ _ _, fun x hx =>
    (Multiset.mem_add.mp hx).elim (hgone' x) (hgone x)⟩

theorem Covers.add {all live : Multiset (D × Program Op Ans ε Unit)} (h : Covers left all live)
    (more : Multiset (D × Program Op Ans ε Unit)) : Covers left (more + all) (more + live) := by
  obtain ⟨gone, rfl, hgone⟩ := h
  exact ⟨gone, (Multiset.add_assoc _ _ _).symm, hgone⟩

/-- A program that may not be left is live. -/
theorem Covers.mem {all live : Multiset (D × Program Op Ans ε Unit)} (h : Covers left all live)
    {x : D × Program Op Ans ε Unit} (hx : x ∈ all) (hleft : ¬ left x.2) : x ∈ live := by
  obtain ⟨gone, rfl, hgone⟩ := h
  exact (Multiset.mem_add.mp hx).resolve_right fun hx => hleft (hgone x hx)

theorem Covers.subset {all live : Multiset (D × Program Op Ans ε Unit)} (h : Covers left all live)
    {x : D × Program Op Ans ε Unit} (hx : x ∈ live) : x ∈ all := by
  obtain ⟨gone, rfl, -⟩ := h
  exact Multiset.mem_add.mpr (.inl hx)

/-- A program after the step is for a datum that had one before, or that arrives. -/
theorem Change.datum {before after : Multiset (D × Program Op Ans ε Unit)}
    {said : Option (D ⊕ (D × Event Op Ans))} (h : Change code spawn root left before after said)
    {x : D × Program Op Ans ε Unit} (hx : x ∈ after) :
    (∃ y ∈ before, y.1 = x.1) ∨ said = some (.inl x.1) := by
  cases h with
  | rest h => exact .inl ⟨x, h.subset hx, rfl⟩
  | arrive d h =>
    rcases Multiset.mem_cons.mp (h.subset hx) with rfl | hx
    · exact .inr rfl
    · exact .inl ⟨x, hx, rfl⟩
  | answer d o k r others hb h =>
    subst hb
    refine .inl ?_
    rcases Multiset.mem_cons.mp (h.subset hx) with rfl | hx
    · exact ⟨_, Multiset.mem_cons_self _ _, rfl⟩
    · rcases Multiset.mem_add.mp hx with hx | hx
      · obtain ⟨l, -, rfl⟩ := List.mem_map.mp (Multiset.mem_coe.mp hx)
        exact ⟨_, Multiset.mem_cons_self _ _, rfl⟩
      · exact ⟨x, Multiset.mem_cons_of_mem hx, rfl⟩

/-- A call is made by a program. -/
theorem Change.called {before after : Multiset (D × Program Op Ans ε Unit)} {d : D}
    {e : Event Op Ans} (h : Change code spawn root left before after (some (.inr (d, e)))) :
    ∃ y ∈ before, y.1 = d := by
  cases h with
  | answer d o k r others hb h => exact ⟨_, hb ▸ Multiset.mem_cons_self _ _, rfl⟩

/-- Some choice of answers answers `o` by `r`. -/
theorem exists_answering (ans : ∀ o, Ans o) (o : Op) (r : Ans o) :
    ∃ ans' : ∀ o, Ans o, ans' o = r := by
  classical exact ⟨Function.update ans o r, Function.update_self o r ans⟩

variable (code spawn root) in
/-- A crew answers the call of its `i`-th program. -/
theorem crew_answer {c : Crew Op Ans ε τ} {i : Nat} {l : τ} {past : List (Event Op Ans)} {o : Op}
    {k : Ans o → Program Op Ans ε Unit} (hi : c.tasks[i]? = some ⟨l, past, .call o k⟩) (d : D)
    (ans : ∀ o, Ans o) :
    ∃ c' others, (crew (code d) spawn root).step c (i, ans) = some c' ∧
      c.next i ans = some ⟨o, ans o⟩ ∧ crewPrograms d c = (d, .call o k) ::ₘ others ∧
      crewPrograms d c' = (d, k (ans o)) ::ₘ (starts code spawn d ⟨o, ans o⟩ + others) := by
  obtain ⟨hlt, hg⟩ := List.getElem?_eq_some_iff.mp hi
  obtain ⟨U, V, rfl, hc⟩ : ∃ U V, U.length = i ∧ c.tasks = U ++ ⟨l, past, .call o k⟩ :: V :=
    ⟨c.tasks.take i, c.tasks.drop (i + 1), List.length_take_of_le hlt.le, by
      rw [← hg, List.getElem_cons_drop, List.take_append_drop]⟩
  obtain ⟨tasks, trace⟩ := c
  obtain rfl : tasks = U ++ ⟨l, past, .call o k⟩ :: V := hc
  refine ⟨_, crewPrograms d ⟨U, trace⟩ + crewPrograms d ⟨V, trace⟩,
    step_append U V l past trace o k, by simp [Crew.next], ?_, ?_⟩
  all_goals
    simp only [crewPrograms, starts, List.map_append, List.map_cons, List.map_map,
      ← Multiset.coe_add, ← Multiset.cons_coe, ← Multiset.singleton_add, Function.comp_def]
    abel

variable (code spawn root) in
/-- The step of a family that answers a call of its `n`-th crew. -/
theorem crews_answer {fam : List (D × Crew Op Ans ε τ)} {n i : Nat} {d : D}
    {c : Crew Op Ans ε τ} {l : τ} {past : List (Event Op Ans)} {o : Op}
    {k : Ans o → Program Op Ans ε Unit} (hn : fam[n]? = some (d, c))
    (hi : c.tasks[i]? = some ⟨l, past, .call o k⟩) (ans : ∀ o, Ans o) :
    ∃ fam' others, (crews code spawn root).step fam (.inr (n, i, ans)) = some fam' ∧
      told fam (.inr (n, i, ans)) = some (n, d, ⟨o, ans o⟩) ∧
      fam'.map Prod.fst = fam.map Prod.fst ∧ programs fam = (d, .call o k) ::ₘ others ∧
      programs fam' = (d, k (ans o)) ::ₘ (starts code spawn d ⟨o, ans o⟩ + others) := by
  obtain ⟨hlt, hg⟩ := List.getElem?_eq_some_iff.mp hn
  obtain ⟨A, B, rfl, rfl⟩ : ∃ A B, A.length = n ∧ fam = A ++ (d, c) :: B :=
    ⟨fam.take n, fam.drop (n + 1), List.length_take_of_le hlt.le, by
      rw [← hg, List.getElem_cons_drop, List.take_append_drop]⟩
  obtain ⟨c', others, hstep, hnext, hc, hc'⟩ :=
    crew_answer code spawn root hi d ans
  refine ⟨A ++ (d, c') :: B, programs A + others + programs B, ?_, ?_, by simp, ?_, ?_⟩
  · simp [Machine.family, hstep]
  · simp [told, hnext]
  · simp only [programs_append, programs_cons, hc, ← Multiset.singleton_add]
    abel
  · simp only [programs_append, programs_cons, hc', ← Multiset.singleton_add]
    abel

/-! ## The family that a machine runs -/

/-- The data that arrived. -/
def arrived (log : List (D ⊕ (D × Event Op Ans))) : List D := log.filterMap Sum.getLeft?

/-- The calls that were answered. -/
def answered (log : List (D ⊕ (D × Event Op Ans))) : List (D × Event Op Ans) :=
  log.filterMap Sum.getRight?

section

variable {log : List (D ⊕ (D × Event Op Ans))}

@[simp] theorem arrived_append (log' : List (D ⊕ (D × Event Op Ans))) :
    arrived (log ++ log') = arrived log ++ arrived log' := List.filterMap_append

@[simp] theorem answered_append (log' : List (D ⊕ (D × Event Op Ans))) :
    answered (log ++ log') = answered log ++ answered log' := List.filterMap_append

@[simp] theorem arrived_nil : arrived ([] : List (D ⊕ (D × Event Op Ans))) = [] := rfl

@[simp] theorem answered_nil : answered ([] : List (D ⊕ (D × Event Op Ans))) = [] := rfl

@[simp] theorem arrived_inl (d : D) :
    arrived ([.inl d] : List (D ⊕ (D × Event Op Ans))) = [d] := rfl

@[simp] theorem answered_inl (d : D) :
    answered ([.inl d] : List (D ⊕ (D × Event Op Ans))) = [] := rfl

@[simp] theorem arrived_inr (x : D × Event Op Ans) : arrived [.inr x] = [] := rfl

@[simp] theorem answered_inr (x : D × Event Op Ans) : answered [.inr x] = [x] := rfl

end

section

variable {σ : Type y} {α : Type y} {M : Machine σ α} {c : σ → α → Prop}
  {live : σ → Multiset (D × Program Op Ans ε Unit)}
  {said : σ → α → Option (D ⊕ (D × Event Op Ans))}

/-- The family and its log, as the machine has them. -/
structure Runs (left : Program Op Ans ε Unit → Prop)
    (live : σ → Multiset (D × Program Op Ans ε Unit))
    (p : σ × List (D ⊕ (D × Event Op Ans)))
    (f : List (D × Crew Op Ans ε τ) × List (Nat × D × Event Op Ans)) : Prop where
  data : f.1.map Prod.fst = arrived p.2
  log : f.2.map Prod.snd = answered p.2
  live : Covers left (programs f.1) (live p.1)

/-- One step of the machine is one step of the family, or none. -/
theorem Runs.step {s t : σ} {log : List (D ⊕ (D × Event Op Ans))}
    {f : List (D × Crew Op Ans ε τ) × List (Nat × D × Event Op Ans)}
    {said : Option (D ⊕ (D × Event Op Ans))} (ans : ∀ o, Ans o)
    (hf : ((crews code spawn root).logged told).Reach
      (fun q a => Machine.familyStep (fun _ => answers P) q.1 a) f)
    (hruns : Runs left live (s, log) f)
    (hchange : Change code spawn root left (live s) (live t) said)
    (hallowed : ∀ x, said = some (.inr x) → P x.2) :
    ∃ f', ((crews code spawn root).logged told).Reach
      (fun q a => Machine.familyStep (fun _ => answers P) q.1 a) f' ∧
      Runs left live (t, log ++ said.toList) f' := by
  obtain ⟨hdata, hlog, hlive⟩ := hruns
  cases hchange with
  | rest h => exact ⟨f, hf, by simpa using hdata, by simpa using hlog, hlive.trans h⟩
  | arrive d h =>
    refine ⟨(f.1 ++ [(d, ⟨[⟨root, [], code d root⟩], []⟩)], f.2), hf.snoc (a := .inl d) trivial ?_,
      by simp [hdata], by simp [hlog], Covers.trans ?_ h⟩
    · simp [Machine.logged, Machine.family, crew, told]
    · simp only [programs_append, programs_cons, programs_nil, crewPrograms, List.map_cons,
        List.map_nil, Multiset.coe_singleton, add_zero, Multiset.add_comm (programs f.1),
        ← Multiset.singleton_add]
      exact hlive.add _
  | answer d o k r others hb h =>
    dsimp only at hlive
    rw [hb] at hlive
    obtain ⟨gone, hgone, hdone⟩ := hlive
    obtain ⟨n, i, c, l, past, hn, hi⟩ :=
      exists_crew (d := d) (p := .call o k) (by rw [hgone]; simp)
    obtain ⟨ans, rfl⟩ := exists_answering ans o r
    obtain ⟨fam, others', hstep, htold, hmembers, hbefore, hafter⟩ :=
      crews_answer code spawn root hn hi ans
    refine ⟨(fam, f.2 ++ [(n, d, ⟨o, ans o⟩)]), hf.snoc (a := .inr (n, i, ans)) ?_ ?_,
      by simp [hmembers, hdata], by simp [hlog], ?_⟩
    · intro p hp e he
      obtain rfl : (d, c) = p := Option.some.inj (hn.symm.trans hp)
      have hnext : c.next i ans = some ⟨o, ans o⟩ := by simp [Crew.next, hi]
      rw [Option.some.inj (he.symm.trans hnext)]
      exact hallowed _ rfl
    · simp only [Machine.logged, hstep, htold, Option.map_some]
      rfl
    · rw [hbefore, Multiset.cons_add, Multiset.cons_inj_right] at hgone
      refine Covers.trans ?_ h
      rw [hafter, hgone]
      exact ⟨gone, by simp only [← Multiset.singleton_add]; abel, hdone⟩

/-- **A machine whose steps change its programs so runs a family of crews**, and its log
is that of the family. -/
theorem exists_family (ans : ∀ o, Ans o) (h0 : live M.init = 0)
    (hstep : ∀ s a t, M.Reach c s → c s a → M.step s a = some t →
      Change code spawn root left (live s) (live t) (said s a) ∧
        ∀ x, said s a = some (.inr x) → P x.2)
    {p : σ × List (D ⊕ (D × Event Op Ans))}
    (h : (M.logged said).Reach (fun p a => c p.1 a) p) :
    ∃ f, ((crews code spawn root).logged told).Reach
      (fun q a => Machine.familyStep (fun _ => answers P) q.1 a) f ∧ Runs left live p f := by
  refine Machine.Reach.invariant (P := fun p => ∃ f, ((crews code spawn root).logged told).Reach
    (fun q a => Machine.familyStep (fun _ => answers P) q.1 a) f ∧ Runs left live p f) h ?_ ?_
  · exact ⟨([], []), Machine.Reach.init, rfl, rfl, Covers.of_eq h0.symm⟩
  · rintro ⟨s, log⟩ a ⟨t, log'⟩ hs hc ⟨f, hf, hruns⟩ ht
    obtain ⟨ht, rfl⟩ := Machine.logged_step ht
    obtain ⟨hchange, hallowed⟩ := hstep s a t hs.of_logged hc ht
    exact hruns.step ans hf hchange hallowed

end

/-! ## The log of a family -/

/-- The log is an interleaving of the traces. -/
structure Interleaves (f : List (D × Crew Op Ans ε τ) × List (Nat × D × Event Op Ans)) :
    Prop where
  traces : ∀ n d c, f.1[n]? = some (d, c) → (f.2.filter (·.1 == n)).map (·.2.2) = c.trace
  owners : ∀ x ∈ f.2, ∃ c, f.1[x.1]? = some (x.2.1, c)

theorem crew_step_trace {root : τ} {code : τ → Program Op Ans ε Unit} {s s' : Crew Op Ans ε τ}
    {a : Nat × (∀ o, Ans o)} (h : (crew code spawn root).step s a = some s') :
    ∃ e, s.next a.1 a.2 = some e ∧ s'.trace = s.trace ++ [e] := by
  obtain ⟨A, B, l, past, o, k, -, hnext, rfl⟩ := crew_step_cases h
  exact ⟨_, hnext, rfl⟩

/-- **What the log has of a crew is its trace.** -/
theorem trace_of_log {c : List (D × Crew Op Ans ε τ) × List (Nat × D × Event Op Ans) →
      D ⊕ (Nat × Nat × (∀ o, Ans o)) → Prop}
    {f : List (D × Crew Op Ans ε τ) × List (Nat × D × Event Op Ans)}
    (h : ((crews code spawn root).logged told).Reach c f) : Interleaves f := by
  refine Machine.Path.invariant (P := Interleaves) h ⟨by simp [Machine.logged, Machine.family],
    by simp [Machine.logged]⟩ ?_
  rintro ⟨fam, log⟩ a ⟨fam', log'⟩ - hf hmove
  obtain ⟨hstep, hlog⟩ := Machine.logged_step hmove
  dsimp only at hstep hlog
  subst hlog
  cases a with
  | inl d =>
    simp only [crews, Machine.family, Option.some.injEq] at hstep
    subst hstep
    refine ⟨fun n d' c hn => ?_, fun x hx => ?_⟩
    · simp only [told, Option.toList_none, List.append_nil]
      rcases of_getElem?_concat hn with hn | ⟨rfl, hlast⟩
      · exact hf.traces n d' c hn
      · obtain rfl := (Prod.mk.inj hlast).2
        have hnone : log.filter (·.1 == fam.length) = [] := by
          refine List.filter_eq_nil_iff.mpr fun x hx heq => ?_
          obtain ⟨c, hc⟩ := hf.owners x hx
          have hlt := (List.getElem?_eq_some_iff.mp hc).1
          rw [beq_iff_eq.mp heq] at hlt
          exact absurd hlt (Nat.lt_irrefl _)
        rw [hnone]
        rfl
    · obtain ⟨c, hc⟩ := hf.owners x (by simpa [told] using hx)
      exact ⟨c, getElem?_concat_of_some hc⟩
  | inr m =>
    obtain ⟨n, a⟩ := m
    simp only [crews, Machine.family] at hstep
    obtain ⟨⟨d, c⟩, hn, hstep⟩ := Option.bind_eq_some_iff.mp hstep
    obtain ⟨c', hc', rfl⟩ := Option.map_eq_some_iff.mp hstep
    obtain ⟨e, hnext, htrace⟩ := crew_step_trace hc'
    have hlt := (List.getElem?_eq_some_iff.mp hn).1
    have htold : (told fam (.inr (n, a))).toList = [(n, d, e)] := by
      simp [told, hn, hnext]
    rw [htold]
    refine ⟨fun n' d' x hn' => ?_, fun x hx => ?_⟩
    · dsimp only at hn' ⊢
      rw [List.filter_append, List.map_append]
      by_cases hne : n' = n
      · subst hne
        rw [List.getElem?_set_self hlt] at hn'
        obtain ⟨rfl, rfl⟩ := Prod.mk.inj (Option.some.inj hn')
        rw [hf.traces n' d c hn, htrace]
        simp
      · rw [List.getElem?_set_ne (Ne.symm hne)] at hn'
        rw [hf.traces n' d' x hn']
        simp [Ne.symm hne]
    · have howner : ∀ (m : Nat) (d' : D), (∃ y, fam[m]? = some (d', y)) →
          ∃ y, (fam.set n (d, c'))[m]? = some (d', y) := by
        rintro m d' ⟨y, hy⟩
        by_cases hne : m = n
        · subst hne
          obtain ⟨rfl, -⟩ := Prod.mk.inj (Option.some.inj (hn.symm.trans hy))
          exact ⟨c', List.getElem?_set_self hlt⟩
        · exact ⟨y, by rw [List.getElem?_set_ne (Ne.symm hne)]; exact hy⟩
      rcases List.mem_append.mp hx with hx | hx
      · exact howner _ _ (hf.owners x hx)
      · obtain rfl := List.mem_singleton.mp hx
        exact howner n d ⟨c, hn⟩

/-- **Each event of the log is an event of a crew**, and the log has what that crew did
before it. -/
theorem Interleaves.split {f : List (D × Crew Op Ans ε τ) × List (Nat × D × Event Op Ans)}
    (hf : Interleaves f) {p q : List (D × Event Op Ans)} {x : D × Event Op Ans}
    (hlog : f.2.map Prod.snd = p ++ x :: q) :
    ∃ (n : Nat) (c : Crew Op Ans ε τ) (p' q' : List (Event Op Ans)), f.1[n]? = some (x.1, c) ∧
      c.trace = p' ++ x.2 :: q' ∧ ∀ e ∈ p', (x.1, e) ∈ p := by
  obtain ⟨l, l', hl, rfl, hl'⟩ := List.map_eq_append_iff.mp hlog
  obtain ⟨y, l'', rfl, rfl, rfl⟩ := List.map_eq_cons_iff.mp hl'
  obtain ⟨c, hc⟩ := hf.owners y (by rw [hl]; simp)
  refine ⟨y.1, c, (l.filter (·.1 == y.1)).map (·.2.2), (l''.filter (·.1 == y.1)).map (·.2.2), hc,
    ?_, fun e he => ?_⟩
  · rw [← hf.traces y.1 y.2.1 c hc, hl]
    simp
  · obtain ⟨z, hz, rfl⟩ := List.mem_map.mp he
    obtain ⟨hz, heq⟩ := List.mem_filter.mp hz
    obtain ⟨c', hc'⟩ := hf.owners z (by rw [hl]; exact List.mem_append_left _ hz)
    rw [beq_iff_eq.mp heq, hc] at hc'
    obtain ⟨hd, -⟩ := Prod.mk.inj (Option.some.inj hc')
    exact List.mem_map.mpr ⟨z, hz, by rw [hd]⟩

end Theory
