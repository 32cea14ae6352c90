import MqAdapters.AsyncListener.Model
import MqAdapters.Delivery.Paths

/-!
# How many handlers are inside the callback

A handler acquires and releases through the field `self._semaphore`, which `stop`
clears and `start` replaces.  A handler that outlives a `stop` releases a permit of
the new semaphore, which it never acquired.

* `holdRules`: `_run_handler` calls the callback with a permit, and releases one
  that it has acquired.
* `renews`: `start` creates its semaphore only when nobody holds a permit.
* `concurrency_bounded`: in such runs each release is of the semaphore that was
  acquired, and at most `max_concurrency` handlers are inside the callback.
-/

namespace MqAdapters

open Python Theory Code

namespace AsyncListener

/-! ## The permit of one handler -/

/-- After the call, the permit is held. -/
def hold (holding : Bool) : Call → Bool
  | ⟨.acquire, r⟩ => match r with
    | .ok _ => true
    | .error _ => holding
  | ⟨.release, _⟩ => false
  | _ => holding

/-- The permit is held after these calls. -/
def holding (past : List Call) : Bool := past.foldl hold false

@[simp] theorem holding_nil : holding [] = false := rfl

@[simp] theorem holding_append (past : List Call) (e : Call) :
    holding (past ++ [e]) = hold (holding past) e := by
  simp [holding]

/-- A permit is acquired once, the callback runs with it, and only a permit that is
held is released. -/
def holdRules : Program.Rules Op Op.Ans Job where
  allowed _ := True
  guard past
    | .acquire => holding past = false
    | .release | .callback _ _ | .awaitResult => holding past = true
    | _ => True
  spawn _ := []
  pre _ _ := True

@[simp] theorem holdRules_allowed (e : Call) : holdRules.allowed e ↔ True := Iff.rfl

@[simp] theorem holdRules_spawn (e : Call) : holdRules.spawn e = [] := rfl

section

variable {self : Settings} {message : IncomingMessage} {past : List Call}

@[simp] theorem holdRules_guard (o : Op) : holdRules.guard past o ↔ match o with
    | .acquire => holding past = false
    | .release | .callback _ _ | .awaitResult => holding past = true
    | _ => True := by
  cases o <;> rfl

theorem publishPoison_holds {q : String} (h : holding past = true) :
    (publishPoison message q).wp holdRules (fun past _ => holding past = true) past := by
  simp [publishPoison, IncomingMessage.ack, Program.wp_ite, hold, h]

theorem handlerFailed_holds (h : holding past = true) :
    (handlerFailed self message).wp holdRules (fun past _ => holding past = true) past := by
  have hnack : ∀ {past requeue} {Q : List Call → Except Raised Unit → Prop}, holding past = true →
      (∀ past r, holding past = true → Q past r) → (message.nack requeue).wp holdRules Q past := by
    intro past requeue Q h hQ
    simp [IncomingMessage.nack, hold, h, hQ]
  cases hq : self.config.poisonQueue (retryAttemptFromHeaders message.headers) with
  | none =>
    simp [handlerFailed, Program.wp_ite, hq]
    refine ⟨fun _ => ⟨fun _ => hnack h ?_, fun _ => hnack h ?_⟩, fun _ => h⟩
    all_goals rintro past ((_ | _) | _) h <;> exact h
  | some q =>
    simp [handlerFailed, Program.wp_ite, hq]
    refine ⟨fun _ => Program.wp_mono ?_ _ _ (publishPoison_holds h), fun _ => h⟩
    intro past r h
    rcases r with (_ | _) | settled
    · exact h
    · exact h
    · refine ⟨fun _ => ⟨fun _ => hnack h ?_, fun _ => hnack h ?_⟩, fun _ => h⟩
      all_goals rintro past ((_ | _) | _) h <;> exact h

/-- **`_run_handler` holds its permit around the callback**, and holds none when it
is over. -/
theorem runHandler_holds :
    (runHandler self message).wp holdRules (fun past _ => holding past = false) [] := by
  -- the ack after a callback that completed
  have hack : ∀ {past} {Q : List Call → Except Raised Unit → Prop}, holding past = true →
      (∀ past r, holding past = true → Q past r) → message.ack.wp holdRules Q past := by
    intro past Q h hQ
    simp [IncomingMessage.ack, hold, h, hQ]
  simp [runHandler, Program.wp_ite, hold]
  refine ⟨rfl, rfl, ⟨⟨fun _ => hack rfl ?_, ⟨fun _ => hack rfl ?_, handlerFailed_holds rfl⟩,
    fun _ => hack rfl ?_⟩, handlerFailed_holds rfl⟩, rfl⟩
  all_goals
    rintro past ((_ | _) | _) h
    exacts [handlerFailed_holds h, h, h]

end

/-! ## The permits of all handlers -/

/-- The handler holds a permit of the semaphore `g`. -/
def Handler.holds (h : Handler) (g : Nat) : Bool := h.permit == .held g

def Handler.inside (h : Handler) : Bool :=
  match h.rest with
  | .call (.callback _ _) _ | .call .awaitResult _ => true
  | _ => false

/-- Nobody holds a permit, or has been woken to take one. -/
def unheld (s : AsyncListener) : Bool :=
  s.handlers.all (fun h => match h.permit with
    | .held _ => false
    | _ => true) &&
    s.semaphores.all fun sem => sem.waiters.all fun w => !w.2

/-- `start` creates its semaphore only when nobody holds a permit. -/
def renews (s : AsyncListener) : Action → Bool
  | .start i raises => match s.starts[i]? with
    | some (.going (.bind k)) => raises || !s.channelOpen k || s.unheld
    | _ => true
  | _ => true

/-- A handler keeps the rules, and what it holds is a permit. -/
structure Disciplined (h : Handler) : Prop where
  wp : h.rest.wp holdRules (fun past _ => holding past = false) h.past
  permit : holding h.past = true → ∃ g, h.permit = .held g

/-- The permits of each semaphore add up to no more than the limit, and only those
of the semaphore `cur` are held or can be. -/
structure Sound (limit cur : Nat) (s : AsyncListener) : Prop where
  permits : ∀ (g : Nat) (sem : Semaphore Nat), s.semaphores[g]? = some sem →
    sem.free + s.handlers.countP (·.holds g) ≤ limit
  prompt : ∀ (g : Nat) (sem : Semaphore Nat), s.semaphores[g]? = some sem → sem.Prompt
  idle : ∀ (g : Nat) (sem : Semaphore Nat), s.semaphores[g]? = some sem → g ≠ cur → sem.Idle
  current : ∀ g, s.semaphore = some g → g = cur
  held : ∀ h ∈ s.handlers, ∀ g, h.permit = .held g → g = cur ∧ g < s.semaphores.length
  disciplined : ∀ h ∈ s.handlers, Disciplined h

variable {self : Config} {s t : AsyncListener} {limit cur i g : Nat} {h h' : Handler} {o : Op}
  {k : o.Ans → Code Unit}

theorem Handler.holds_iff : h.holds g = true ↔ h.permit = .held g := by
  simp [Handler.holds]

/-- What is held after a step of one handler was held before, or is a permit of the
current semaphore. -/
theorem Sound.held_set (hs : Sound limit cur s) (hi : s.handlers[i]? = some h)
    (hheld : ∀ g, h'.permit = .held g → h.permit = .held g ∨ g = cur ∧ g < s.semaphores.length) :
    ∀ x ∈ s.handlers.set i h', ∀ g, x.permit = .held g → g = cur ∧ g < s.semaphores.length := by
  intro x hx g hg
  rcases List.mem_or_eq_of_mem_set hx with hx | rfl
  · exact hs.held x hx g hg
  · exact (hheld g hg).elim (hs.held h (List.mem_of_getElem? hi) g) id

theorem Sound.disciplined_set (hs : Sound limit cur s) (hd : Disciplined h') :
    ∀ x ∈ s.handlers.set i h', Disciplined x := by
  intro x hx
  rcases List.mem_or_eq_of_mem_set hx with hx | rfl
  · exact hs.disciplined x hx
  · exact hd

/-- A handler goes on without the semaphores. -/
theorem Sound.keep (hs : Sound limit cur s) (hi : s.handlers[i]? = some h)
    (hsemaphore : t.semaphore = s.semaphore) (hhandlers : t.handlers = s.handlers.set i h')
    (hsemaphores : t.semaphores = s.semaphores)
    (hheld : ∀ g, h'.permit = .held g → h.permit = .held g) (hd : Disciplined h') :
    Sound limit cur t where
  permits g sem hsem := by
    have hholds : h'.holds g = true → h.holds g = true := by
      simpa only [Handler.holds_iff] using hheld g
    rw [hhandlers]
    exact Nat.le_trans (Nat.add_le_add_left (countP_set_le hi hholds) _)
      (hs.permits g sem (hsemaphores ▸ hsem))
  prompt g sem hsem := hs.prompt g sem (hsemaphores ▸ hsem)
  idle g sem hsem := hs.idle g sem (hsemaphores ▸ hsem)
  current g hg := hs.current g (hsemaphore ▸ hg)
  held := by
    rw [hhandlers, hsemaphores]
    exact hs.held_set hi fun g hg => .inl (hheld g hg)
  disciplined := by
    rw [hhandlers]
    exact hs.disciplined_set hd

/-- A handler goes on, with a call of the semaphore `g`. -/
theorem Sound.update {sem : Semaphore Nat} {f : Semaphore Nat → Semaphore Nat}
    (hs : Sound limit cur s) (hi : s.handlers[i]? = some h) (hg : s.semaphores[g]? = some sem)
    (hsemaphore : t.semaphore = s.semaphore) (hhandlers : t.handlers = s.handlers.set i h')
    (hsemaphores : t.semaphores = s.semaphores.modify g f)
    (hfree : (f sem).free + (if h'.holds g then 1 else 0) ≤
      sem.free + if h.holds g then 1 else 0)
    (hprompt : (f sem).Prompt) (hidle : g ≠ cur → (f sem).Idle)
    (hheld : ∀ g', h'.permit = .held g' → h.permit = .held g' ∨ g' = g ∧ g = cur)
    (hd : Disciplined h') : Sound limit cur t := by
  have hcases : ∀ g' sem', t.semaphores[g']? = some sem' →
      g' = g ∧ sem' = f sem ∨ g' ≠ g ∧ s.semaphores[g']? = some sem' := by
    intro g' sem' hsem'
    rw [hsemaphores, List.getElem?_modify] at hsem'
    by_cases hgg : g = g'
    · subst hgg
      exact .inl ⟨rfl, by simpa [hg] using hsem'.symm⟩
    · exact .inr ⟨Ne.symm hgg, by simpa [hgg] using hsem'⟩
  have hlt : g < s.semaphores.length := (List.getElem?_eq_some_iff.mp hg).1
  refine ⟨?_, ?_, ?_, fun g' hg' => hs.current g' (hsemaphore ▸ hg'), ?_, ?_⟩
  · intro g' sem' hsem'
    rw [hhandlers]
    rcases hcases g' sem' hsem' with ⟨rfl, rfl⟩ | ⟨hne, hsem⟩
    · have hcount := countP_set_add (p := (·.holds g')) (y := h') hi
      have hle := hs.permits g' sem hg
      omega
    · have hholds : h'.holds g' = true → h.holds g' = true := by
        simp only [Handler.holds_iff]
        exact fun hg' => (hheld g' hg').resolve_right fun heq => hne heq.1
      exact Nat.le_trans (Nat.add_le_add_left (countP_set_le hi hholds) _)
        (hs.permits g' sem' hsem)
  · intro g' sem' hsem'
    rcases hcases g' sem' hsem' with ⟨rfl, rfl⟩ | ⟨-, hsem⟩
    · exact hprompt
    · exact hs.prompt g' sem' hsem
  · intro g' sem' hsem' hne
    rcases hcases g' sem' hsem' with ⟨rfl, rfl⟩ | ⟨-, hsem⟩
    · exact hidle hne
    · exact hs.idle g' sem' hsem hne
  · rw [hhandlers, hsemaphores, List.length_modify]
    refine hs.held_set hi fun g' hg' => (hheld g' hg').imp_right ?_
    rintro ⟨rfl, rfl⟩
    exact ⟨rfl, hlt⟩
  · rw [hhandlers]
    exact hs.disciplined_set hd

/-! ## Steps of a handler -/

theorem Disciplined.guard (hd : Disciplined h) (hrest : h.rest = .call o k) :
    holdRules.guard h.past o := by
  have hwp := hd.wp
  rw [hrest] at hwp
  exact hwp.1

theorem Disciplined.answer {permit : Permit} (hd : Disciplined h) (hrest : h.rest = .call o k)
    (r : o.Ans) (hp : hold (holding h.past) ⟨o, r⟩ = true → ∃ g, permit = .held g) :
    Disciplined { h.answer o k r with permit := permit } where
  wp := by
    have hwp := hd.wp
    rw [hrest] at hwp
    exact (hwp.2 r trivial).2
  permit := by
    simpa only [Handler.answer, holding_append] using hp

/-- A call that has nothing to do with the semaphore. -/
theorem Sound.answer (hs : Sound limit cur s) (hi : s.handlers[i]? = some h)
    (hrest : h.rest = .call o k) (r : o.Ans)
    (hr : hold (holding h.past) ⟨o, r⟩ = true → holding h.past = true) :
    Sound limit cur (s.goOn i (h.answer o k r)) := by
  have hd := hs.disciplined h (List.mem_of_getElem? hi)
  exact hs.keep hi rfl rfl rfl (fun _ hg => hg)
    (hd.answer hrest r fun hh => hd.permit (hr hh))

theorem not_holding (hd : Disciplined h) (hne : ∀ g, h.permit ≠ .held g) :
    holding h.past = false := by
  by_contra hh
  obtain ⟨g, hg⟩ := hd.permit (by simpa using hh)
  exact hne g hg

theorem sound_acquire {k : Op.acquire.Ans → Code Unit} (hs : Sound limit cur s)
    (hi : s.handlers[i]? = some h) (hrest : h.rest = .call .acquire k)
    (ht : s.acquire i h k = some t) : Sound limit cur t := by
  have hd := hs.disciplined h (List.mem_of_getElem? hi)
  have hnot : holding h.past = false := hd.guard hrest
  unfold acquire at ht
  split at ht
  · cases ht
    exact hs.answer hi hrest _ fun hh => hh
  · next g hg =>
    obtain rfl := hs.current g hg
    obtain ⟨sem, hsem, rfl⟩ := Option.map_eq_some_iff.mp ht
    split
    · next hlocked =>
      refine hs.update hi hsem rfl rfl rfl ?_ ((hs.prompt g sem hsem).park hlocked i)
        (fun hne => absurd rfl hne) nofun ⟨hd.wp, ?_⟩
      · simp [Handler.holds]
      · simp [hnot]
    · next hlocked =>
      have hlocked : sem.locked = false := by simpa using hlocked
      have hfree := Semaphore.free_take hlocked
      refine hs.update hi hsem rfl rfl rfl ?_ (Semaphore.prompt_take hlocked)
        (fun hne => absurd rfl hne) ?_ (hd.answer hrest _ fun _ => ⟨g, rfl⟩)
      · simp only [Handler.holds, beq_self_eq_true, if_true]
        omega
      · rintro g' ⟨⟩
        exact .inr ⟨rfl, rfl⟩

theorem sound_acquired {k : Op.acquire.Ans → Code Unit} (hs : Sound limit cur s)
    (hi : s.handlers[i]? = some h) (hrest : h.rest = .call .acquire k)
    (hpermit : h.permit = .waiting g) (ht : s.acquired i h g k = some t) : Sound limit cur t := by
  have hd := hs.disciplined h (List.mem_of_getElem? hi)
  have hnot := not_holding hd (by simp [hpermit])
  obtain ⟨sem, hsem, ht⟩ := Option.bind_eq_some_iff.mp ht
  -- a semaphore with a woken waiter is the current one
  have hcur : ∀ {P : Prop}, sem.woken i = true → g ≠ cur → P := by
    intro P hw hne
    rw [(hs.idle g sem hsem hne).not_woken] at hw
    cases hw
  have hcancelled : Disciplined
      { h.answer .acquire k (.error .baseException) with permit := .none } :=
    hd.answer hrest _ fun hh => by
      rw [show holding h.past = true from hh] at hnot
      cases hnot
  split at ht
  · split at ht
    · next hw =>
      cases ht
      refine hs.update hi hsem rfl rfl rfl ?_ (Semaphore.prompt_wakeAll _) (hcur hw) nofun
        hcancelled
      simp [Semaphore.free_giveBack hw, Handler.holds]
    · cases ht
      refine hs.update hi hsem rfl rfl rfl ?_ (Semaphore.prompt_wakeAll _) ?_ nofun hcancelled
      · simp [Handler.holds]
      · intro hne
        have hidle := hs.idle g sem hsem hne
        exact hidle.wakeAll_eq.symm ▸ hidle
  · split at ht
    · next hw =>
      cases ht
      have hfree := Semaphore.free_resume hw
      refine hs.update hi hsem rfl rfl rfl ?_ (Semaphore.prompt_wakeAll _) (hcur hw) ?_
        (hd.answer hrest _ fun _ => ⟨g, rfl⟩)
      · simp only [Handler.holds, beq_self_eq_true, if_true]
        omega
      · rintro g' ⟨⟩
        refine .inr ⟨rfl, ?_⟩
        by_contra hne
        exact hcur hw hne
    · cases ht

/-- A handler releases the permit that it holds. -/
theorem Sound.releases {k : Op.release.Ans → Code Unit} (hs : Sound limit cur s)
    (hi : s.handlers[i]? = some h) (hrest : h.rest = .call .release k)
    (hg : s.semaphore = some g) : h.permit = .held g := by
  have hd := hs.disciplined h (List.mem_of_getElem? hi)
  obtain ⟨g', hg'⟩ := hd.permit (hd.guard hrest)
  rw [hg', hs.current g hg, (hs.held h (List.mem_of_getElem? hi) g' hg').1]

theorem sound_release {k : Op.release.Ans → Code Unit} (hs : Sound limit cur s)
    (hi : s.handlers[i]? = some h) (hrest : h.rest = .call .release k) :
    Sound limit cur (s.release i h k) := by
  have hd := hs.disciplined h (List.mem_of_getElem? hi)
  unfold release
  split
  · exact hs.keep hi rfl rfl rfl nofun (hd.answer hrest _ nofun)
  · next g hg =>
    have hpermit := hs.releases hi hrest hg
    obtain ⟨rfl, hlt⟩ := hs.held h (List.mem_of_getElem? hi) g hpermit
    refine hs.update hi (List.getElem?_eq_getElem hlt) rfl rfl rfl ?_ (Semaphore.prompt_release _)
      (fun hne => absurd rfl hne) nofun (hd.answer hrest _ nofun)
    simp [Handler.holds, hpermit]

theorem sound_handle {answers : ∀ o : Op, o.Ans} (hs : Sound limit cur s)
    (ht : s.handle i answers = some t) : Sound limit cur t := by
  obtain ⟨h, hi, ht⟩ := Option.bind_eq_some_iff.mp ht
  have hd := hs.disciplined h (List.mem_of_getElem? hi)
  cases hrest : h.rest with
  | pure a => simp only [hrest] at ht; cases ht
  | raise x => simp only [hrest] at ht; cases ht
  | call o k =>
    simp only [hrest] at ht
    split at ht
    · next hcancelled =>
      cases ht
      simp only [Bool.and_eq_true, List.isEmpty_iff] at hcancelled
      refine hs.keep hi rfl rfl rfl (fun _ hg => hg) ⟨?_, hd.permit⟩
      show holding h.past = false
      rw [hcancelled.2]
      rfl
    · cases o with
      | acquire =>
        simp only [call] at ht
        split at ht
        · next g hpermit => exact sound_acquired hs hi hrest hpermit ht
        · exact sound_acquire hs hi hrest ht
      | release =>
        cases ht
        exact sound_release hs hi hrest
      | _ =>
        cases ht
        exact hs.answer hi hrest _ fun hh => hh

/-! ## Steps of the other tasks -/

/-- The handlers and the semaphores stay, and the field too, unless it is cleared. -/
structure Unchanged (s t : AsyncListener) : Prop where
  handlers : t.handlers = s.handlers
  semaphores : t.semaphores = s.semaphores
  semaphore : t.semaphore = s.semaphore ∨ t.semaphore = none

theorem Sound.unchanged (hs : Sound limit cur s) (h : Unchanged s t) : Sound limit cur t where
  permits g sem hsem := by
    rw [h.handlers]
    exact hs.permits g sem (h.semaphores ▸ hsem)
  prompt g sem hsem := hs.prompt g sem (h.semaphores ▸ hsem)
  idle g sem hsem := hs.idle g sem (h.semaphores ▸ hsem)
  current g hg := by
    rcases h.semaphore with hsame | hnone
    · exact hs.current g (hsame ▸ hg)
    · rw [hnone] at hg
      cases hg
  held := by
    rw [h.handlers, h.semaphores]
    exact hs.held
  disciplined := h.handlers ▸ hs.disciplined

theorem Unchanged.trans {u : AsyncListener} (h : Unchanged s t) (h' : Unchanged t u) :
    Unchanged s u where
  handlers := h'.handlers.trans h.handlers
  semaphores := h'.semaphores.trans h.semaphores
  semaphore := h'.semaphore.elim (fun hsame => hsame ▸ h.semaphore) .inr

theorem sound_onMessage (hs : Sound limit cur s) (message : IncomingMessage) :
    Sound limit cur (s.onMessage self message) := by
  have hnew : ∀ {P : Handler → Prop}, (∀ h ∈ s.handlers, P h) →
      P ⟨message, [], runHandler self.settings message, .none, false⟩ →
      ∀ h ∈ (s.onMessage self message).handlers, P h := by
    intro P hold hnew h hh
    rcases List.mem_append.mp hh with hh | hh
    · exact hold h hh
    · rw [List.mem_singleton.mp hh]
      exact hnew
  refine ⟨fun g sem hsem => ?_, hs.prompt, hs.idle, hs.current, hnew hs.held nofun,
    hnew hs.disciplined ⟨runHandler_holds, nofun⟩⟩
  have hle := hs.permits g sem hsem
  simpa [onMessage, Handler.holds] using hle

theorem sound_cancelHandler (hs : Sound limit cur s) (i : Nat) :
    Sound limit cur (s.cancelHandler i) := by
  unfold cancelHandler
  split
  · exact hs
  · next h hi =>
    have hd := hs.disciplined h (List.mem_of_getElem? hi)
    have hd' : Disciplined { h with cancelled := true } := ⟨hd.wp, hd.permit⟩
    dsimp only
    split
    · exact hs
    · split
      · next g hpermit =>
        cases hsem : s.semaphores[g]? with
        | none =>
          refine hs.keep hi rfl rfl ?_ (fun _ hg => hg) hd'
          exact List.modify_eq_self (List.getElem?_eq_none_iff.mp hsem)
        | some sem =>
          refine hs.update hi hsem rfl rfl rfl ?_ ((hs.prompt g sem hsem).drop i)
            (fun hne => (hs.idle g sem hsem hne).drop i) (fun _ hg => .inl hg) hd'
          simp [Handler.holds]
      · exact hs.keep hi rfl rfl rfl (fun _ hg => hg) hd'

theorem sound_cancelHandlers (tasks : List Nat) (hs : Sound limit cur s) :
    Sound limit cur (tasks.foldl cancelHandler s) := by
  induction tasks generalizing s with
  | nil => exact hs
  | cons i tasks ih => exact ih (sound_cancelHandler hs i)

theorem stopChannelClosed_unchanged (s : AsyncListener) : Unchanged s s.stopChannelClosed.1 := by
  unfold stopChannelClosed
  dsimp only
  split
  · exact ⟨rfl, rfl, .inl rfl⟩
  · split <;> exact ⟨rfl, rfl, .inl rfl⟩

theorem stopFinally_unchanged (s : AsyncListener) : Unchanged s s.stopFinally.1 := by
  have hclosed := stopChannelClosed_unchanged
    { s with consumerTag := none, inFlight := [], semaphore := none }
  have hcleared : Unchanged s { s with consumerTag := none, inFlight := [], semaphore := none } :=
    ⟨rfl, rfl, .inr rfl⟩
  unfold stopFinally
  dsimp only
  split
  · exact hcleared.trans hclosed
  · split
    · exact hcleared
    · exact hcleared.trans hclosed

theorem stopCancelled_unchanged (s : AsyncListener) : Unchanged s (s.stopCancelled self).1 := by
  unfold stopCancelled
  split
  · exact stopFinally_unchanged s
  · exact ⟨rfl, rfl, .inl rfl⟩

theorem stopBegin_unchanged (self : Config) (s : AsyncListener) :
    Unchanged s (s.stopBegin self).1 := by
  unfold stopBegin
  split
  · exact ⟨rfl, rfl, .inl rfl⟩
  · exact stopCancelled_unchanged s

theorem sound_stopStep {raises : Bool} {pc : StopPc} {p : AsyncListener × StopPc}
    (hs : Sound limit cur s) (hp : s.stopStep self raises pc = some p) : Sound limit cur p.1 := by
  cases pc with
  | cancelConsumer queue tag =>
    cases hp
    split
    · exact hs.unchanged (stopCancelled_unchanged s)
    · have hcancel : Unchanged s (s.cancelConsumer queue tag) := ⟨rfl, rfl, .inl rfl⟩
      exact hs.unchanged (hcancel.trans (stopCancelled_unchanged _))
  | wait tasks until_ =>
    simp only [stopStep] at hp
    split at hp
    · cases hp
      exact hs.unchanged (stopFinally_unchanged s)
    · split at hp <;> cases hp
      exact sound_cancelHandlers tasks hs
  | waitCancelled tasks =>
    simp only [stopStep] at hp
    split at hp <;> cases hp
    exact hs.unchanged (stopFinally_unchanged s)
  | closeChannel channel =>
    cases hp
    split
    · exact hs.unchanged (stopChannelClosed_unchanged s)
    · have hshut : Unchanged s (s.shutChannel channel) := ⟨rfl, rfl, .inl rfl⟩
      exact hs.unchanged (hshut.trans (stopChannelClosed_unchanged _))
  | closeConnection conn =>
    cases hp
    exact hs.unchanged ⟨rfl, rfl, .inl rfl⟩
  | returned => cases hp

/-! ## Steps of `start` -/

/-- A new semaphore, while nobody holds a permit of an earlier one. -/
theorem Sound.renew (hs : Sound limit cur s) (hun : s.unheld = true)
    (hhandlers : t.handlers = s.handlers) (hsemaphore : t.semaphore = some s.semaphores.length)
    (hsemaphores : t.semaphores = s.semaphores ++ [⟨limit, []⟩]) :
    Sound limit s.semaphores.length t := by
  simp only [unheld, Bool.and_eq_true, List.all_eq_true] at hun
  have hnone : ∀ h ∈ s.handlers, ∀ g, h.permit ≠ .held g := by
    intro h hh g hg
    have hheld := hun.1 h hh
    rw [hg] at hheld
    cases hheld
  have hcount : ∀ g, s.handlers.countP (·.holds g) = 0 := by
    intro g
    rw [List.countP_eq_zero]
    exact fun h hh hg => hnone h hh g (Handler.holds_iff.mp hg)
  have hcases : ∀ (g : Nat) (sem : Semaphore Nat), t.semaphores[g]? = some sem →
      s.semaphores[g]? = some sem ∨ g = s.semaphores.length ∧ sem = ⟨limit, []⟩ := by
    intro g sem hsem
    rw [hsemaphores] at hsem
    exact of_getElem?_concat hsem
  refine ⟨?_, ?_, ?_, ?_, ?_, hhandlers ▸ hs.disciplined⟩
  · intro g sem hsem
    rw [hhandlers]
    rcases hcases g sem hsem with hsem | ⟨rfl, rfl⟩
    · exact hs.permits g sem hsem
    · simp [hcount, Semaphore.free]
  · intro g sem hsem
    rcases hcases g sem hsem with hsem | ⟨rfl, rfl⟩
    · exact hs.prompt g sem hsem
    · exact Semaphore.prompt_new limit
  · intro g sem hsem hne
    rcases hcases g sem hsem with hsem | ⟨rfl, rfl⟩
    · refine (hs.prompt g sem hsem).idle ?_
      intro w hw
      simpa using hun.2 sem (List.mem_of_getElem? hsem) w hw
    · exact absurd rfl hne
  · intro g hg
    exact (Option.some.inj (hsemaphore.symm.trans hg)).symm
  · rw [hhandlers]
    intro h hh g hg
    exact absurd hg (hnone h hh g)

theorem sound_start {raises : Bool} (hs : Sound self.concurrency cur s)
    (hr : renews s (.start i raises) = true) (ht : s.start self i raises = some t) :
    ∃ cur, Sound self.concurrency cur t := by
  obtain ⟨pc, p, hi, rfl, rfl⟩ := start_cases ht
  -- only the step that creates the semaphore touches any
  have hother : Unchanged s (s.startStep self raises pc).1 → ∃ cur, Sound self.concurrency cur
      { (s.startStep self raises pc).1 with
        starts := (s.startStep self raises pc).1.starts.set i (s.startStep self raises pc).2 } :=
    fun h => ⟨cur, hs.unchanged ⟨h.handlers, h.semaphores, h.semaphore⟩⟩
  cases pc with
  | bind queue =>
    by_cases hopen : (raises || !s.channelOpen queue) = true
    · refine hother ?_
      simp only [startStep, hopen, if_true]
      exact ⟨rfl, rfl, .inl rfl⟩
    · have hun : s.unheld = true := by
        simp only [renews, hi, Bool.or_eq_true] at hr
        exact hr.resolve_left (by simpa using hopen)
      refine ⟨s.semaphores.length, hs.renew hun ?_ ?_ ?_⟩
      all_goals simp only [startStep, hopen, Bool.false_eq_true, if_false]
  | factory | channel | setQos | declareExchange | declareQueue | consume =>
    refine hother ?_
    unfold startStep
    dsimp only
    split <;> exact ⟨rfl, rfl, .inl rfl⟩

theorem sound_step {a : Action} (hs : Sound self.concurrency cur s) (hr : renews s a = true)
    (ht : s.step self a = some t) : ∃ cur, Sound self.concurrency cur t := by
  cases a with
  | callStart =>
    cases ht
    exact ⟨cur, hs.unchanged ⟨rfl, rfl, .inl rfl⟩⟩
  | start i raises => exact sound_start hs hr ht
  | callStop =>
    cases ht
    obtain ⟨hhandlers, hsemaphores, hsemaphore⟩ := stopBegin_unchanged self s
    exact ⟨cur, hs.unchanged ⟨hhandlers, hsemaphores, hsemaphore⟩⟩
  | stop i raises =>
    obtain ⟨pc, p, -, hstep, rfl⟩ := stop_cases ht
    exact ⟨cur, (sound_stopStep hs hstep).unchanged ⟨rfl, rfl, .inl rfl⟩⟩
  | deliver message =>
    simp only [step] at ht
    split at ht <;> cases ht
    exact ⟨cur, sound_onMessage hs message⟩
  | handle i answers => exact ⟨cur, sound_handle hs ht⟩
  | tick dt =>
    simp only [step] at ht
    split at ht <;> cases ht
    exact ⟨cur, hs.unchanged ⟨rfl, rfl, .inl rfl⟩⟩
  | lose | loseChannel =>
    cases ht
    exact ⟨cur, hs.unchanged ⟨rfl, rfl, .inl rfl⟩⟩

theorem sound_initial (limit : Nat) : Sound limit 0 initial where
  permits := nofun
  prompt := nofun
  idle := nofun
  current := nofun
  held := nofun
  disciplined := nofun

theorem sound_of_reach (h : (machine self).Reach (fun s a => renews s a = true) s) :
    ∃ cur, Sound self.concurrency cur s := by
  refine h.invariant (P := fun s => ∃ cur, Sound self.concurrency cur s)
    ⟨0, sound_initial self.concurrency⟩ ?_
  exact fun _ _ _ _ hr ⟨_, hs⟩ ht => sound_step hs hr ht

/-- A handler inside the callback holds a permit. -/
theorem Disciplined.inside (hd : Disciplined h) (hin : h.inside = true) :
    ∃ g, h.permit = .held g := by
  unfold Handler.inside at hin
  split at hin
  · next hrest => exact hd.permit (hd.guard hrest)
  · next hrest => exact hd.permit (hd.guard hrest)
  · cases hin

theorem Sound.inside_le (hs : Sound limit cur s) :
    s.handlers.countP Handler.inside ≤ limit := by
  have hholds : ∀ h ∈ s.handlers, h.inside = true → h.holds cur = true := by
    intro h hh hin
    obtain ⟨g, hg⟩ := (hs.disciplined h hh).inside hin
    rw [Handler.holds_iff, hg, (hs.held h hh g hg).1]
  by_cases hex : ∃ h ∈ s.handlers, h.inside = true
  · obtain ⟨h, hh, hin⟩ := hex
    obtain ⟨g, hg⟩ := (hs.disciplined h hh).inside hin
    obtain ⟨rfl, hlt⟩ := hs.held h hh g hg
    calc s.handlers.countP Handler.inside ≤ s.handlers.countP (·.holds g) :=
          List.countP_mono_left hholds
      _ ≤ limit := Nat.le_trans (Nat.le_add_left _ _)
          (hs.permits g _ (List.getElem?_eq_getElem hlt))
  · have hzero : s.handlers.countP Handler.inside = 0 :=
      List.countP_eq_zero.mpr fun h hh hin => hex ⟨h, hh, hin⟩
    omega

/-- **The concurrency bound survives restarts** as long as each semaphore is created
while nobody holds a permit: a handler that is about to release holds a permit of
the very semaphore that `self._semaphore` is, if that is set, and at most
`max_concurrency` handlers are inside the callback. -/
theorem concurrency_bounded (hs : (machine self).Reach (fun s a => renews s a = true) s) :
    (∀ (i : Nat) (h : Handler) k g, s.handlers[i]? = some h → h.rest = .call .release k →
      s.semaphore = some g → h.permit = .held g) ∧
    s.handlers.countP Handler.inside ≤ self.concurrency := by
  obtain ⟨cur, hsound⟩ := sound_of_reach hs
  exact ⟨fun i h k g hi hrest hg => hsound.releases hi hrest hg, hsound.inside_le⟩

/-! ## A restart between two callbacks, and one during a callback -/

/-- One handler at a time, and no acks. -/
def oneByOne : Config where
  settings := ⟨[], true⟩
  prefetchCount := 0
  maxConcurrency := some 1
  shutdownTimeout := 10

/-- The `i`-th call of `start` sets up everything. -/
def startAll (i : Nat) : List Action := .callStart :: List.replicate 6 (.start i false)

def delivery (channel : Nat) : Action := .deliver ⟨channel, 1, none, none, [104]⟩

/-- The `i`-th handler makes `n` calls; its callback returns a coroutine. -/
def calls (i n : Nat) : List Action :=
  List.replicate n (.handle i (answering (.ok .coroutine) (.ok ()) (.ok ())))

/-- A handler is over before `stop` is called, and the next is inside the callback
after the restart. -/
def restarted : AsyncListener :=
  ((machine oneByOne).runIn renews initial
    (startAll 0 ++ delivery 0 :: calls 0 5 ++ .callStop :: List.replicate 3 (.stop 0 false) ++
      startAll 1 ++ delivery 1 :: calls 1 3)).getD initial

theorem restarted_reach : (machine oneByOne).Reach (fun s a => renews s a = true) restarted :=
  Machine.path_of_isSome (by decide +kernel) initial

theorem concurrency_bounded_restarted :
    restarted.handlers.countP Handler.inside = 1 ∧
      restarted.handlers.countP Handler.inside ≤ 1 :=
  ⟨by decide +kernel, (concurrency_bounded restarted_reach).2⟩

/-- `stop` waits for the first handler; the second gets its permit meanwhile, and is
inside the callback when `start` is called again and the third is. -/
def overlapping : List Action :=
  startAll 0 ++ delivery 0 :: calls 0 3 ++ [.callStop, .stop 0 true, delivery 0] ++ calls 1 2 ++
    calls 0 2 ++ List.replicate 3 (.stop 0 false) ++ calls 1 2 ++ startAll 1 ++
    delivery 1 :: calls 2 3

/-- The second handler is about to release. -/
def releasing : AsyncListener :=
  ((machine oneByOne).runIn (fun _ _ => true) initial (overlapping ++ calls 1 1)).getD initial

/-- It has released, and a fourth handler is inside the callback. -/
def crowded : AsyncListener :=
  ((machine oneByOne).runIn (fun _ _ => true) initial
    (overlapping ++ calls 1 2 ++ delivery 1 :: calls 3 3)).getD initial

def Handler.releases (h : Handler) : Bool :=
  match h.rest with
  | .call .release _ => true
  | _ => false

/-- A handler releases the semaphore of a later `start`, and two handlers of that
`start` are inside the callback at once. -/
theorem foreign_release : oneByOne.concurrency = 1 ∧
    (∃ s, (machine oneByOne).Reach Machine.anyStep s ∧ s.semaphore = some 1 ∧
      (s.handlers[1]?).any (fun h => h.releases && h.permit == .held 0) = true) ∧
    ∃ s, (machine oneByOne).Reach Machine.anyStep s ∧
      s.handlers.countP (fun h => h.message.channel == 1 && h.inside) = 2 := by
  have hreach : ∀ as, ((machine oneByOne).runIn (fun _ _ => true) initial as).isSome = true →
      (machine oneByOne).Reach Machine.anyStep
        (((machine oneByOne).runIn (fun _ _ => true) initial as).getD initial) :=
    fun as h => (Machine.path_of_isSome h initial).mono fun _ _ _ => trivial
  refine ⟨by decide, ⟨releasing, hreach _ ?_, ?_, ?_⟩, crowded, hreach _ ?_, ?_⟩
  all_goals decide +kernel

end AsyncListener

end MqAdapters
