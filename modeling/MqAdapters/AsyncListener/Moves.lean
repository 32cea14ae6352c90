import MqAdapters.AsyncListener.Settle

/-!
# What a step makes of a handler

`start` and `stop` may be called at any time, so an invariant of the semaphores needs
conditions on the run.  What a handler knows of itself does not: it changes only by its
own calls and by a cancel.

* `Moves`: what one step can make of a handler, in any run.
* `forall_step`: what every move keeps, every step keeps of all handlers.
* `Disciplined.moves`: so a handler keeps the rules of its permit in any run.
-/

namespace MqAdapters

open Python Theory Code

namespace AsyncListener

/-- What one step can make of a handler. -/
inductive Moves (h : Handler) : Handler → Prop
  | answer (o : Op) (k : o.Ans → Code Unit) (r : o.Ans) (hrest : h.rest = .call o k)
      (hacquire : o ≠ .acquire) : Moves h (h.answer o k r)
  | acquire (k : Op.acquire.Ans → Code Unit) (g : Nat) (hrest : h.rest = .call .acquire k) :
      Moves h { h.answer .acquire k (.ok ()) with permit := .held g }
  | refuse (k : Op.acquire.Ans → Code Unit) (e : Raised) (permit : Permit)
      (hrest : h.rest = .call .acquire k) :
      Moves h { h.answer .acquire k (.error e) with permit := permit }
  | park (k : Op.acquire.Ans → Code Unit) (g : Nat) (hrest : h.rest = .call .acquire k) :
      Moves h { h with permit := .waiting g }
  | release (k : Op.release.Ans → Code Unit) (r : Except Raised Unit)
      (hrest : h.rest = .call .release k) :
      Moves h { h.answer .release k r with permit := .none }
  | drop (hpast : h.past = []) : Moves h { h with rest := .raise .baseException }
  | cancel : Moves h { h with cancelled := true }

section

variable {self : Config} {s t : AsyncListener} {i : Nat} {P : Handler → Prop}

theorem acquire_moves {h : Handler} {k : Op.acquire.Ans → Code Unit}
    (hrest : h.rest = .call .acquire k) (ht : s.acquire i h k = some t) :
    ∃ h', t.handlers = s.handlers.set i h' ∧ Moves h h' := by
  unfold acquire at ht
  split at ht
  · cases ht
    exact ⟨_, rfl, .refuse k .exception h.permit hrest⟩
  · obtain ⟨sem, -, rfl⟩ := Option.map_eq_some_iff.mp ht
    split
    · exact ⟨_, rfl, .park k _ hrest⟩
    · exact ⟨_, rfl, .acquire k _ hrest⟩

theorem acquired_moves {h : Handler} {g : Nat} {k : Op.acquire.Ans → Code Unit}
    (hrest : h.rest = .call .acquire k) (ht : s.acquired i h g k = some t) :
    ∃ h', t.handlers = s.handlers.set i h' ∧ Moves h h' := by
  obtain ⟨sem, -, ht⟩ := Option.bind_eq_some_iff.mp ht
  split at ht
  · split at ht <;> cases ht
    all_goals exact ⟨_, rfl, .refuse k .baseException .none hrest⟩
  · split at ht <;> cases ht
    exact ⟨_, rfl, .acquire k g hrest⟩

theorem handle_moves {answers : ∀ o : Op, o.Ans} (ht : s.handle i answers = some t) :
    ∃ h h', s.handlers[i]? = some h ∧ t.handlers = s.handlers.set i h' ∧ Moves h h' := by
  obtain ⟨h, hi, ht⟩ := Option.bind_eq_some_iff.mp ht
  refine ⟨h, ?_⟩
  cases hrest : h.rest with
  | pure a => simp only [hrest] at ht; cases ht
  | raise x => simp only [hrest] at ht; cases ht
  | call o k =>
    simp only [hrest] at ht
    split at ht
    · next hdrop =>
      cases ht
      exact ⟨_, hi, rfl, .drop (by simpa using (Bool.and_eq_true_iff.mp hdrop).2)⟩
    · cases o with
      | acquire =>
        simp only [call] at ht
        split at ht
        · exact (acquired_moves hrest ht).imp fun h' hh => ⟨hi, hh⟩
        · exact (acquire_moves hrest ht).imp fun h' hh => ⟨hi, hh⟩
      | release =>
        cases ht
        unfold release
        split
        all_goals exact ⟨_, hi, rfl, .release k _ hrest⟩
      | _ =>
        cases ht
        exact ⟨_, hi, rfl, .answer _ k _ hrest (by simp)⟩

theorem forall_set {h h' : Handler} {handlers : List Handler} (hs : ∀ h ∈ handlers, P h)
    (hi : handlers[i]? = some h) (hmoves : ∀ h h', P h → Moves h h' → P h') (hh : Moves h h') :
    ∀ x ∈ handlers.set i h', P x := by
  intro x hx
  rcases List.mem_or_eq_of_mem_set hx with hx | rfl
  · exact hs x hx
  · exact hmoves h x (hs h (List.mem_of_getElem? hi)) hh

theorem forall_cancelHandler (hmoves : ∀ h h', P h → Moves h h' → P h')
    (hs : ∀ h ∈ s.handlers, P h) (i : Nat) : ∀ h ∈ (s.cancelHandler i).handlers, P h := by
  unfold cancelHandler
  split
  · exact hs
  · next h hi =>
    dsimp only
    split
    · exact hs
    · split <;> exact forall_set hs hi hmoves .cancel

theorem forall_cancelHandlers (hmoves : ∀ h h', P h → Moves h h' → P h') (tasks : List Nat)
    (hs : ∀ h ∈ s.handlers, P h) : ∀ h ∈ (tasks.foldl cancelHandler s).handlers, P h := by
  induction tasks generalizing s with
  | nil => exact hs
  | cons i tasks ih => exact ih (forall_cancelHandler hmoves hs i)

theorem forall_stopStep {raises : Bool} {pc : StopPc} {p : AsyncListener × StopPc}
    (hmoves : ∀ h h', P h → Moves h h' → P h') (hs : ∀ h ∈ s.handlers, P h)
    (hp : s.stopStep self raises pc = some p) : ∀ h ∈ p.1.handlers, P h := by
  cases pc with
  | cancelConsumer queue tag =>
    cases hp
    rw [(stopCancelled_unchanged _).handlers]
    split <;> exact hs
  | wait tasks until_ =>
    simp only [stopStep] at hp
    split at hp
    · cases hp
      exact (stopFinally_unchanged s).handlers ▸ hs
    · split at hp <;> cases hp
      exact forall_cancelHandlers hmoves tasks hs
  | waitCancelled tasks =>
    simp only [stopStep] at hp
    split at hp <;> cases hp
    exact (stopFinally_unchanged s).handlers ▸ hs
  | closeChannel channel =>
    cases hp
    rw [(stopChannelClosed_unchanged _).handlers]
    split <;> exact hs
  | closeConnection conn => cases hp; exact hs
  | returned => cases hp

/-- **What every move keeps of a handler, every step keeps of all of them**, if it is
true of a new one. -/
theorem forall_step {a : Action} (hmoves : ∀ h h', P h → Moves h h' → P h')
    (hnew : ∀ message, P ⟨message, [], runHandler self.settings message, .none, false⟩)
    (hs : ∀ h ∈ s.handlers, P h) (ht : s.step self a = some t) : ∀ h ∈ t.handlers, P h := by
  cases a with
  | callStart | lose | loseChannel => cases ht; exact hs
  | start i raises =>
    obtain ⟨pc, p, -, rfl, rfl⟩ := start_cases ht
    exact (startStep_beside self s raises pc).handlers ▸ hs
  | callStop => cases ht; exact (stopBegin_unchanged self s).handlers ▸ hs
  | stop i raises =>
    obtain ⟨pc, p, -, hstep, rfl⟩ := stop_cases ht
    exact forall_stopStep hmoves hs hstep
  | deliver message =>
    simp only [step] at ht
    split at ht <;> cases ht
    intro h hh
    rcases List.mem_append.mp hh with hh | hh
    · exact hs h hh
    · exact List.mem_singleton.mp hh ▸ hnew message
  | handle i answers =>
    obtain ⟨h, h', hi, hhandlers, hh⟩ := handle_moves ht
    exact hhandlers ▸ forall_set hs hi hmoves hh
  | tick dt =>
    simp only [step] at ht
    split at ht <;> cases ht
    exact hs

theorem of_hold {holding : Bool} {e : Call} (h : hold holding e = true) (he : e.op ≠ .acquire) :
    holding = true := by
  obtain ⟨o, r⟩ := e
  cases o with
  | acquire => exact absurd rfl he
  | release => cases h
  | _ => exact h

/-- A handler keeps the rules of its permit whatever `start` and `stop` do. -/
theorem Disciplined.moves {h h' : Handler} (hd : Disciplined h) (hh : Moves h h') :
    Disciplined h' := by
  cases hh with
  | answer o k r hrest hacquire =>
    exact hd.answer hrest r fun hhold => hd.permit (of_hold hhold hacquire)
  | acquire k g hrest => exact hd.answer hrest _ fun _ => ⟨g, rfl⟩
  | refuse k e permit hrest =>
    have hnot : holding h.past = false := hd.guard hrest
    exact hd.answer hrest _ fun hhold => absurd (hnot.symm.trans hhold) (by decide)
  | park k g hrest =>
    have hnot : holding h.past = false := hd.guard hrest
    exact ⟨hd.wp, fun hhold => absurd (hnot.symm.trans hhold) (by decide)⟩
  | release k r hrest => exact hd.answer hrest r fun hhold => by cases hhold
  | drop hpast =>
    refine ⟨?_, fun hhold => ?_⟩
    · simp [hpast]
    · rw [show holding h.past = false by rw [hpast]; rfl] at hhold
      cases hhold
  | cancel => exact ⟨hd.wp, hd.permit⟩

end

end AsyncListener

end MqAdapters
