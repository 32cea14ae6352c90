import MqAdapters.AsyncListener.Moves
import MqAdapters.AsyncListener.Start
import MqAdapters.Theory.Ranking

/-!
# A stop of the async listener returns

`stop` waits for the handlers in flight for `shutdown_timeout`, and then for those among
them that it has cancelled.  A handler may be waiting for a permit that nobody gives back.

* `Guarded`: whoever `stop` waits for after its timeout is over or was cancelled.
* `finishes`: a cancelled handler can go on to its end, wherever it waits.
* `leads_to_return`: the steps of a call of `stop` are paid for, whatever else happens.
-/

namespace MqAdapters

open Python Theory Code

namespace AsyncListener

variable {self : Config} {s t : AsyncListener} {i j : Nat} {h h' : Handler} {raises : Bool}

/-! ## The steps of `stop` -/

/-- How many steps of `stop` are left at most. -/
def StopPc.toReturn : StopPc → Nat
  | .returned => 0
  | .closeConnection _ => 1
  | .closeChannel _ => 2
  | .waitCancelled _ => 3
  | .wait _ _ => 4
  | .cancelConsumer _ _ => 5

theorem stopChannelClosed_toReturn (s : AsyncListener) : s.stopChannelClosed.2.toReturn ≤ 1 := by
  unfold stopChannelClosed
  dsimp only
  split
  · exact Nat.zero_le 1
  · split <;> simp [StopPc.toReturn]

theorem stopFinally_toReturn (s : AsyncListener) : s.stopFinally.2.toReturn ≤ 2 := by
  unfold stopFinally
  dsimp only
  split
  · exact (stopChannelClosed_toReturn _).trans (by decide)
  · split
    · simp [StopPc.toReturn]
    · exact (stopChannelClosed_toReturn _).trans (by decide)

theorem stopCancelled_toReturn (s : AsyncListener) : (s.stopCancelled self).2.toReturn ≤ 4 := by
  unfold stopCancelled
  split
  · exact (stopFinally_toReturn s).trans (by decide)
  · simp [StopPc.toReturn]

theorem stopStep_toReturn {pc : StopPc} {p : AsyncListener × StopPc}
    (hp : s.stopStep self raises pc = some p) : p.2.toReturn < pc.toReturn := by
  cases pc with
  | cancelConsumer k tag =>
    cases hp
    exact Nat.lt_succ_of_le (stopCancelled_toReturn _)
  | wait tasks until_ =>
    simp only [stopStep] at hp
    split at hp
    · cases hp
      exact (stopFinally_toReturn s).trans_lt (by simp [StopPc.toReturn])
    · split at hp <;> cases hp
      simp [StopPc.toReturn]
  | waitCancelled tasks =>
    simp only [stopStep] at hp
    split at hp <;> cases hp
    exact (stopFinally_toReturn s).trans_lt (by simp [StopPc.toReturn])
  | closeChannel k =>
    cases hp
    exact (stopChannelClosed_toReturn _).trans_lt (by simp [StopPc.toReturn])
  | closeConnection c =>
    cases hp
    simp [StopPc.toReturn]
  | returned => cases hp

/-- The steps that are left to the `i`-th call of `stop`. -/
def toReturn (i : Nat) (s : AsyncListener) : Nat := (s.stops[i]?).elim 0 StopPc.toReturn

/-- A step of the `i`-th call of `stop`. -/
def ofStop (i : Nat) (_ : AsyncListener) : Action → Bool
  | .stop j _ => j == i
  | _ => false

/-- The `i`-th call of `stop` has been made. -/
def Called (i : Nat) (s : AsyncListener) : Prop := i < s.stops.length

theorem toReturn_step {a : Action} (hi : Called i s) (ht : s.step self a = some t) :
    Called i t ∧ t.toReturn i + (if ofStop i s a then 1 else 0) ≤ s.toReturn i := by
  have hsame : t.stops = s.stops → ofStop i s a = false →
      Called i t ∧ t.toReturn i + (if ofStop i s a then 1 else 0) ≤ s.toReturn i := by
    intro hstops hnot
    simp only [Called, toReturn, hstops, hnot]
    exact ⟨hi, Nat.le_refl _⟩
  cases a with
  | callStart | lose | loseChannel =>
    cases ht
    exact hsame rfl rfl
  | start j raises =>
    obtain ⟨pc, p, -, rfl, rfl⟩ := start_cases ht
    exact hsame (startStep_beside self s raises pc).stops rfl
  | callStop =>
    -- the new call comes after those that have been made
    cases ht
    have hbegin := (stopBegin_stopping self s).kept.stops
    have hget : (s.stops ++ [(s.stopBegin self).2])[i]? = s.stops[i]? :=
      List.getElem?_append_left hi
    simp only [Called, toReturn, hbegin, hget, ofStop, List.length_append]
    exact ⟨Nat.lt_add_right _ hi, Nat.le_refl _⟩
  | stop j raises =>
    obtain ⟨pc, p, hj, hp, rfl⟩ := stop_cases ht
    have hkept := (stopStep_stopping hp).kept.stops
    by_cases hij : j = i
    · subst hij
      have hlt := stopStep_toReturn hp
      have hset : (s.stops.set j p.2)[j]? = some p.2 := List.getElem?_set_self hi
      simp only [Called, toReturn, hkept, hset, hj, ofStop, Option.elim_some, beq_self_eq_true,
        if_true, List.length_set]
      exact ⟨hi, hlt⟩
    · have hset : (s.stops.set j p.2)[i]? = s.stops[i]? := List.getElem?_set_ne hij
      simp only [Called, toReturn, hkept, hset, ofStop, beq_eq_false_iff_ne.mpr hij,
        List.length_set]
      exact ⟨hi, Nat.le_refl _⟩
  | deliver message =>
    simp only [step] at ht
    split at ht <;> cases ht
    exact hsame rfl rfl
  | handle j answers => exact hsame (handle_aside ht).stops rfl
  | tick dt =>
    simp only [step] at ht
    split at ht <;> cases ht
    exact hsame rfl rfl

/-- **The steps of a call of `stop` lead to its return**, whatever else happens. -/
theorem leads_to_return (self : Config) (i : Nat) (c : AsyncListener → Action → Prop) :
    (machine self).Leads c (ofStop i) (Called i) (fun _ => False) (toReturn i) where
  step _ _ _ _ hs ht := .inr (toReturn_step hs ht)
  stays _ _ _ _ := False.elim

/-! ## Who is waited for -/

/-- The handler is over or was cancelled. -/
def Freed (h : Handler) : Prop := h.rest.done = true ∨ h.cancelled = true

theorem Freed.moves (hf : Freed h) (hh : Moves h h') : Freed h' := by
  have hgoing : ∀ {o : Op} {k : o.Ans → Code Unit}, h.rest = .call o k → h.cancelled = true := by
    intro o k hrest
    rcases hf with hdone | hcancelled
    · rw [hrest] at hdone
      cases hdone
    · exact hcancelled
  cases hh with
  | answer o k r hrest => exact .inr (hgoing hrest)
  | acquire k g hrest => exact .inr (hgoing hrest)
  | refuse k e permit hrest => exact .inr (hgoing hrest)
  | park k g hrest => exact .inr (hgoing hrest)
  | release k r hrest => exact .inr (hgoing hrest)
  | drop hpast => exact .inl rfl
  | cancel => exact .inr rfl

/-- The `j`-th handler is over or was cancelled. -/
def FreedAt (s : AsyncListener) (j : Nat) : Prop := ∃ h, s.handlers[j]? = some h ∧ Freed h

/-- Nobody waited for is unknown, and nobody is waited for once it was cancelled in vain. -/
def Heeds (s : AsyncListener) : StopPc → Prop
  | .wait tasks _ => ∀ j ∈ tasks, j < s.handlers.length
  | .waitCancelled tasks => ∀ j ∈ tasks, s.FreedAt j
  | _ => True

/-- Handlers are added, and those that were freed stay so. -/
structure Persists (s t : AsyncListener) : Prop where
  length : s.handlers.length ≤ t.handlers.length
  freed : ∀ j, s.FreedAt j → t.FreedAt j

theorem Persists.same (hh : t.handlers = s.handlers) : Persists s t where
  length := by rw [hh]
  freed j hj := by rwa [FreedAt, hh]

theorem Persists.set (hi : s.handlers[i]? = some h) (hh : t.handlers = s.handlers.set i h')
    (hfreed : Freed h → Freed h') : Persists s t where
  length := by rw [hh, List.length_set]
  freed j hj := by
    obtain ⟨x, hx, hf⟩ := hj
    rw [FreedAt, hh]
    by_cases hij : i = j
    · subst hij
      rw [hi] at hx
      obtain rfl := Option.some.inj hx
      exact ⟨h', List.getElem?_set_self (List.getElem?_eq_some_iff.mp hi).1, hfreed hf⟩
    · exact ⟨x, by rwa [List.getElem?_set_ne hij], hf⟩

theorem Persists.trans {u : AsyncListener} (h : Persists s t) (h' : Persists t u) :
    Persists s u := ⟨h.length.trans h'.length, fun j hj => h'.freed j (h.freed j hj)⟩

theorem Heeds.persists {pc : StopPc} (hs : s.Heeds pc) (h : Persists s t) : t.Heeds pc := by
  cases pc with
  | wait tasks until_ => exact fun j hj => (hs j hj).trans_le h.length
  | waitCancelled tasks => exact fun j hj => h.freed j (hs j hj)
  | cancelConsumer | closeChannel | closeConnection | returned => trivial

theorem persists_cancelHandler (s : AsyncListener) (i : Nat) : Persists s (s.cancelHandler i) := by
  unfold cancelHandler
  split
  · exact .same rfl
  · next h hi =>
    dsimp only
    split
    · exact .same rfl
    · split <;> exact .set hi rfl fun hf => hf.moves .cancel

theorem freedAt_cancelHandler (hi : i < s.handlers.length) : (s.cancelHandler i).FreedAt i := by
  have hget : s.handlers[i]? = some s.handlers[i] := List.getElem?_eq_getElem hi
  unfold cancelHandler
  rw [hget]
  dsimp only
  split
  · next hdone => exact ⟨_, hget, .inl hdone⟩
  · split <;> exact ⟨_, List.getElem?_set_self hi, .inr rfl⟩

/-- After a timeout everybody who is waited for is freed. -/
theorem freedAt_cancelHandlers (tasks : List Nat) (hlt : ∀ j ∈ tasks, j < s.handlers.length) :
    Persists s (tasks.foldl cancelHandler s) ∧
      ∀ j ∈ tasks, (tasks.foldl cancelHandler s).FreedAt j := by
  induction tasks generalizing s with
  | nil => exact ⟨.same rfl, nofun⟩
  | cons i tasks ih =>
    have hcancel := persists_cancelHandler s i
    obtain ⟨hpersists, hfreed⟩ := ih (s := s.cancelHandler i) fun j hj =>
      (hlt j (List.mem_cons_of_mem i hj)).trans_le hcancel.length
    refine ⟨hcancel.trans hpersists, fun j hj => ?_⟩
    rcases List.mem_cons.mp hj with rfl | hj
    · exact hpersists.freed j (freedAt_cancelHandler (hlt j List.mem_cons_self))
    · exact hfreed j hj

/-- The semaphores that are waited for exist, and `stop` waits for those it knows. -/
structure Guarded (s : AsyncListener) : Prop where
  semaphore : ∀ g, s.semaphore = some g → g < s.semaphores.length
  waiting : ∀ h ∈ s.handlers, ∀ g, h.permit = .waiting g → g < s.semaphores.length
  inFlight : ∀ j ∈ s.inFlight, j < s.handlers.length
  stops : ∀ pc ∈ s.stops, s.Heeds pc

theorem Guarded.goes (hs : Guarded s) (hi : s.handlers[i]? = some h)
    (hh : t.handlers = s.handlers.set i h') (hfreed : Freed h → Freed h')
    (hwaits : ∀ g, h'.permit = .waiting g → h.permit = .waiting g ∨ g < s.semaphores.length)
    (hsemaphore : t.semaphore = s.semaphore)
    (hsemaphores : t.semaphores.length = s.semaphores.length)
    (hin : ∀ j ∈ t.inFlight, j ∈ s.inFlight) (hstops : t.stops = s.stops) : Guarded t where
  semaphore g hg := by
    rw [hsemaphores]
    exact hs.semaphore g (hsemaphore ▸ hg)
  waiting x hx g hg := by
    rw [hsemaphores]
    rw [hh] at hx
    rcases List.mem_or_eq_of_mem_set hx with hx | rfl
    · exact hs.waiting x hx g hg
    · exact (hwaits g hg).elim (hs.waiting h (List.mem_of_getElem? hi) g) id
  inFlight j hj := by
    rw [hh, List.length_set]
    exact hs.inFlight j (hin j hj)
  stops pc hpc := (hs.stops pc (hstops ▸ hpc)).persists (.set hi hh hfreed)

theorem goOn_inFlight {u : AsyncListener} (hin : u.inFlight = s.inFlight) (i : Nat) (h : Handler) :
    ∀ j ∈ (u.goOn i h).inFlight, j ∈ s.inFlight := by
  intro j hj
  simp only [goOn, hin] at hj
  split at hj
  · exact List.mem_of_mem_erase hj
  · exact hj

/-- **A handler goes on**, and waits for no semaphore that does not exist. -/
theorem Guarded.goOn {answers : ∀ o : Op, o.Ans} {u : AsyncListener} (hs : Guarded s)
    (hi : s.handlers[i]? = some h) (ht : s.handle i answers = some (u.goOn i h'))
    (hu : u.handlers = s.handlers) (hsemaphore : u.semaphore = s.semaphore)
    (hsemaphores : u.semaphores.length = s.semaphores.length) (hin : u.inFlight = s.inFlight)
    (hwaits : ∀ g, h'.permit = .waiting g → h.permit = .waiting g ∨ g < s.semaphores.length) :
    Guarded (u.goOn i h') := by
  obtain ⟨h₀, x, hi₀, hh, hmoves⟩ := handle_moves ht
  rw [hi] at hi₀
  obtain rfl : h = h₀ := Option.some.inj hi₀
  have hlt : i < s.handlers.length := (List.getElem?_eq_some_iff.mp hi).1
  -- the handler that goes on is the one that has moved
  have hx : x = h' := by
    have hget : (s.handlers.set i x)[i]? = (s.handlers.set i h')[i]? := by
      rw [← hh, AsyncListener.goOn, hu]
    rw [List.getElem?_set_self hlt, List.getElem?_set_self hlt] at hget
    exact Option.some.inj hget
  obtain rfl := hx
  exact hs.goes hi hh (fun hf => hf.moves hmoves) hwaits hsemaphore hsemaphores
    (goOn_inFlight hin i x) (handle_aside ht).stops

theorem guarded_handle {answers : ∀ o : Op, o.Ans} (hs : Guarded s)
    (hstep : s.handle i answers = some t) : Guarded t := by
  obtain ⟨h₀, hi, ht⟩ := Option.bind_eq_some_iff.mp hstep
  have hgoes : ∀ {u : AsyncListener} {x : Handler}, t = u.goOn i x → u.handlers = s.handlers →
      u.semaphore = s.semaphore → u.semaphores.length = s.semaphores.length →
      u.inFlight = s.inFlight →
      (∀ g, x.permit = .waiting g → h₀.permit = .waiting g ∨ g < s.semaphores.length) →
      Guarded t := by
    rintro u x rfl
    exact hs.goOn hi hstep
  have hlength : ∀ g f, (s.modifySemaphore g f).semaphores.length = s.semaphores.length :=
    fun _ _ => List.length_modify _ _ _
  cases hrest : h₀.rest with
  | pure a => simp only [hrest] at ht; cases ht
  | raise x => simp only [hrest] at ht; cases ht
  | call o k =>
    simp only [hrest] at ht
    split at ht
    · cases ht
      exact hgoes rfl rfl rfl rfl rfl fun _ => .inl
    · cases o with
      | acquire =>
        simp only [call] at ht
        split at ht
        · obtain ⟨sem, -, ht⟩ := Option.bind_eq_some_iff.mp ht
          split at ht
          · split at ht <;> cases ht
            all_goals exact hgoes rfl rfl rfl (hlength _ _) rfl fun _ hg => by cases hg
          · split at ht <;> cases ht
            exact hgoes rfl rfl rfl (hlength _ _) rfl fun _ hg => by cases hg
        · unfold acquire at ht
          split at ht
          · cases ht
            exact hgoes rfl rfl rfl rfl rfl fun _ => .inl
          · next g hg =>
            obtain ⟨sem, -, ht⟩ := Option.map_eq_some_iff.mp ht
            split at ht
            · refine hgoes ht.symm rfl rfl (hlength _ _) rfl ?_
              intro g' hg'
              obtain rfl : g = g' := Permit.waiting.inj hg'
              exact .inr (hs.semaphore g hg)
            · exact hgoes ht.symm rfl rfl (hlength _ _) rfl fun _ hg => by cases hg
      | release =>
        have ht : s.release i h₀ k = t := Option.some.inj ht
        unfold release at ht
        split at ht
        · exact hgoes ht.symm rfl rfl rfl rfl fun _ hg => by cases hg
        · exact hgoes ht.symm rfl rfl (hlength _ _) rfl fun _ hg => by cases hg
      | _ =>
        cases ht
        exact hgoes rfl rfl rfl rfl rfl fun _ => .inl

theorem Guarded.unchanged (hs : Guarded s) (h : Unchanged s t)
    (hin : ∀ j ∈ t.inFlight, j ∈ s.inFlight) (hstops : t.stops = s.stops) : Guarded t where
  semaphore g hg := by
    rw [h.semaphores]
    rcases h.semaphore with hsame | hnone
    · exact hs.semaphore g (hsame ▸ hg)
    · rw [hnone] at hg
      cases hg
  waiting := by
    rw [h.handlers, h.semaphores]
    exact hs.waiting
  inFlight j hj := by
    rw [h.handlers]
    exact hs.inFlight j (hin j hj)
  stops pc hpc := (hs.stops pc (hstops ▸ hpc)).persists (.same h.handlers)

theorem guarded_cancelHandler (hs : Guarded s) (i : Nat) : Guarded (s.cancelHandler i) := by
  unfold cancelHandler
  split
  · exact hs
  · next h hi =>
    have hcancel : Freed h → Freed { h with cancelled := true } := fun hf => hf.moves .cancel
    dsimp only
    split
    · exact hs
    · split
      · exact hs.goes hi rfl hcancel (fun _ => .inl) rfl (List.length_modify _ _ _)
          (fun _ => id) rfl
      · exact hs.goes hi rfl hcancel (fun _ => .inl) rfl rfl (fun _ => id) rfl

theorem guarded_cancelHandlers (tasks : List Nat) (hs : Guarded s) :
    Guarded (tasks.foldl cancelHandler s) := by
  induction tasks generalizing s with
  | nil => exact hs
  | cons i tasks ih => exact ih (guarded_cancelHandler hs i)

theorem stopChannelClosed_inFlight (s : AsyncListener) :
    s.stopChannelClosed.1.inFlight = s.inFlight := by
  unfold stopChannelClosed
  dsimp only
  split
  · rfl
  · split <;> rfl

theorem stopFinally_inFlight (s : AsyncListener) : s.stopFinally.1.inFlight = [] := by
  unfold stopFinally
  dsimp only
  split
  · exact stopChannelClosed_inFlight _
  · split
    · rfl
    · exact stopChannelClosed_inFlight _

/-- Past its waits `stop` heeds nobody. -/
theorem heeds_of_toReturn {pc : StopPc} (h : pc.toReturn ≤ 2) : s.Heeds pc := by
  cases pc with
  | wait | waitCancelled => simp [StopPc.toReturn] at h
  | cancelConsumer | closeChannel | closeConnection | returned => trivial

theorem guarded_stopFinally (hs : Guarded s) :
    Guarded s.stopFinally.1 ∧ s.stopFinally.1.Heeds s.stopFinally.2 := by
  refine ⟨hs.unchanged (stopFinally_unchanged s) ?_ (stopFinally_stopping s).kept.stops,
    heeds_of_toReturn (stopFinally_toReturn s)⟩
  rw [stopFinally_inFlight]
  exact nofun

theorem guarded_stopCancelled (self : Config) (hs : Guarded s) :
    Guarded (s.stopCancelled self).1 ∧
      (s.stopCancelled self).1.Heeds (s.stopCancelled self).2 := by
  unfold stopCancelled
  split
  · exact guarded_stopFinally hs
  · exact ⟨hs, hs.inFlight⟩

theorem guarded_stopStep {pc : StopPc} {p : AsyncListener × StopPc} (hs : Guarded s)
    (hpc : s.Heeds pc) (hp : s.stopStep self raises pc = some p) :
    Guarded p.1 ∧ p.1.Heeds p.2 := by
  cases pc with
  | cancelConsumer k tag =>
    cases hp
    split
    · exact guarded_stopCancelled self hs
    · have hcancel : Guarded (s.cancelConsumer k tag) :=
        hs.unchanged ⟨rfl, rfl, .inl rfl⟩ (fun _ => id) rfl
      exact guarded_stopCancelled self hcancel
  | wait tasks until_ =>
    simp only [stopStep] at hp
    split at hp
    · cases hp
      exact guarded_stopFinally hs
    · split at hp <;> cases hp
      exact ⟨guarded_cancelHandlers tasks hs, (freedAt_cancelHandlers tasks hpc).2⟩
  | waitCancelled tasks =>
    simp only [stopStep] at hp
    split at hp <;> cases hp
    exact guarded_stopFinally hs
  | closeChannel k =>
    cases hp
    have hshut : Guarded (if raises then s else s.shutChannel k) := by
      split
      · exact hs
      · exact hs.unchanged ⟨rfl, rfl, .inl rfl⟩ (fun _ => id) rfl
    have hunchanged := stopChannelClosed_unchanged (if raises then s else s.shutChannel k)
    refine ⟨hshut.unchanged hunchanged ?_ (stopChannelClosed_stopping _).kept.stops,
      heeds_of_toReturn ((stopChannelClosed_toReturn _).trans (by decide))⟩
    rw [stopChannelClosed_inFlight]
    exact fun _ => id
  | closeConnection c =>
    cases hp
    exact ⟨hs.unchanged ⟨rfl, rfl, .inl rfl⟩ (fun _ => id) rfl, trivial⟩
  | returned => cases hp

theorem guarded_stopBegin (self : Config) (hs : Guarded s) :
    Guarded (s.stopBegin self).1 ∧ (s.stopBegin self).1.Heeds (s.stopBegin self).2 := by
  unfold stopBegin
  split
  · exact ⟨hs, trivial⟩
  · exact guarded_stopCancelled self hs

theorem startStep_semaphores (self : Config) (s : AsyncListener) (raises : Bool) (pc : StartPc) :
    s.semaphores.length ≤ (s.startStep self raises pc).1.semaphores.length ∧
      ∀ g, (s.startStep self raises pc).1.semaphore = some g →
        s.semaphore = some g ∨ g < (s.startStep self raises pc).1.semaphores.length := by
  cases pc with
  | bind k =>
    unfold startStep
    dsimp only
    split
    · exact ⟨Nat.le_refl _, fun _ => .inl⟩
    · refine ⟨by simp, ?_⟩
      rintro _ ⟨⟩
      exact .inr (by simp)
  | factory | channel | setQos | declareExchange | declareQueue | consume =>
    unfold startStep
    dsimp only
    split <;> exact ⟨Nat.le_refl _, fun _ => .inl⟩

theorem guarded_start (hs : Guarded s) (ht : s.start self i raises = some t) : Guarded t := by
  obtain ⟨pc, p, -, rfl, rfl⟩ := start_cases ht
  have hbeside := startStep_beside self s raises pc
  obtain ⟨hlength, hsemaphore⟩ := startStep_semaphores self s raises pc
  refine ⟨fun g hg => ?_, fun h hh g hg => ?_, fun j hj => ?_, fun pc' hpc' => ?_⟩
  · exact (hsemaphore g hg).elim (fun hsame => (hs.semaphore g hsame).trans_le hlength) id
  · exact (hs.waiting h (hbeside.handlers ▸ hh) g hg).trans_le hlength
  · show j < (s.startStep self raises pc).1.handlers.length
    rw [hbeside.handlers]
    exact hs.inFlight j (hbeside.inFlight ▸ hj)
  · exact (hs.stops pc' (hbeside.stops ▸ hpc')).persists (.same hbeside.handlers)

theorem guarded_step {a : Action} (hs : Guarded s) (ht : s.step self a = some t) : Guarded t := by
  cases a with
  | callStart | lose | loseChannel =>
    cases ht
    exact hs.unchanged ⟨rfl, rfl, .inl rfl⟩ (fun _ => id) rfl
  | start j raises => exact guarded_start hs ht
  | callStop =>
    cases ht
    obtain ⟨hguarded, hheeds⟩ := guarded_stopBegin self hs
    refine ⟨hguarded.semaphore, hguarded.waiting, hguarded.inFlight, fun pc hpc => ?_⟩
    rcases List.mem_append.mp hpc with hpc | hpc
    · exact (hguarded.stops pc hpc).persists (.same rfl)
    · rw [List.mem_singleton.mp hpc]
      exact hheeds.persists (.same rfl)
  | stop j raises =>
    obtain ⟨pc, p, hj, hp, rfl⟩ := stop_cases ht
    obtain ⟨hguarded, hheeds⟩ := guarded_stopStep hs (hs.stops pc (List.mem_of_getElem? hj)) hp
    refine ⟨hguarded.semaphore, hguarded.waiting, hguarded.inFlight, fun pc' hpc' => ?_⟩
    rcases List.mem_or_eq_of_mem_set hpc' with hpc' | rfl
    · exact (hguarded.stops pc' hpc').persists (.same rfl)
    · exact hheeds.persists (.same rfl)
  | deliver message =>
    simp only [step] at ht
    split at ht <;> cases ht
    have hpersists : Persists s (s.onMessage self message) := by
      refine ⟨by simp [onMessage], ?_⟩
      rintro j ⟨h, hj, hfreed⟩
      exact ⟨h, Theory.getElem?_concat_of_some hj, hfreed⟩
    refine ⟨hs.semaphore, fun h hh g hg => ?_, fun j hj => ?_, fun pc hpc =>
      (hs.stops pc hpc).persists hpersists⟩
    · rcases List.mem_append.mp hh with hh | hh
      · exact hs.waiting h hh g hg
      · rw [List.mem_singleton.mp hh] at hg
        cases hg
    · rcases List.mem_append.mp hj with hj | hj
      · exact (hs.inFlight j hj).trans_le hpersists.length
      · rw [List.mem_singleton.mp hj]
        simp [onMessage]
  | handle j answers => exact guarded_handle hs ht
  | tick dt =>
    simp only [step] at ht
    split at ht <;> cases ht
    exact hs.unchanged ⟨rfl, rfl, .inl rfl⟩ (fun _ => id) rfl

theorem guarded_of_reach {c : AsyncListener → Action → Prop} (h : (machine self).Reach c s) :
    Guarded s :=
  Machine.Path.invariant (P := Guarded) h ⟨nofun, nofun, nofun, nofun⟩
    fun _ _ _ _ hs ht => guarded_step hs ht

/-! ## Whoever was cancelled can go on -/

def onlyHandlers (_ : AsyncListener) : Action → Prop
  | .handle _ _ => True
  | _ => False

theorem stops_of_handlers (hrun : (machine self).Path onlyHandlers s t) : t.stops = s.stops := by
  refine Machine.Path.invariant (P := fun t => t.stops = s.stops) hrun rfl ?_
  intro t a u ha hstops hu
  cases a with
  | handle j answers => exact (handle_aside hu).stops.trans hstops
  | callStart | start | callStop | stop | deliver | tick | lose | loseChannel => cases ha

abbrev succeeding : ∀ o : Op, o.Ans := answering (.ok .value) (.ok ()) (.ok ())

/-- A cancelled handler does not wait for the semaphore any more. -/
theorem exists_acquired {g : Nat} {k : Op.acquire.Ans → Code Unit} (i : Nat)
    (hg : g < s.semaphores.length) (hcancelled : h.cancelled = true) :
    ∃ t h', s.acquired i h g k = some t ∧ t.handlers = s.handlers.set i h' ∧
      h'.rest = k (.error .baseException) ∧ h'.cancelled = true := by
  unfold acquired
  simp only [List.getElem?_eq_getElem hg, Option.bind_some, hcancelled, if_true]
  split <;> exact ⟨_, _, rfl, rfl, rfl, hcancelled⟩

/-- **A cancelled handler can take its next step**: a call is answered, or it is queued
for the semaphore. -/
theorem exists_answer {o : Op} {k : o.Ans → Code Unit} (hs : Guarded s)
    (hi : s.handlers[i]? = some h) (hrest : h.rest = .call o k) (hcancelled : h.cancelled = true) :
    ∃ t h', s.handle i succeeding = some t ∧ t.handlers = s.handlers.set i h' ∧
      (h'.rest.done = true ∨ h'.cancelled = true ∧ ((∃ r, h'.rest = k r) ∨
        (∀ g, h.permit ≠ .waiting g) ∧ h'.rest = h.rest ∧ ∃ g, h'.permit = .waiting g)) := by
  have hmem := List.mem_of_getElem? hi
  unfold handle
  simp only [hi, Option.bind_some, hrest, hcancelled, Bool.true_and]
  split
  · exact ⟨_, _, rfl, rfl, .inl rfl⟩
  · cases o with
    | acquire =>
      simp only [call]
      split
      · next g hg =>
        obtain ⟨t, h', ht, hh, hnext, hcancelled'⟩ :=
          exists_acquired (k := k) i (hs.waiting h hmem g hg) hcancelled
        exact ⟨t, h', ht, hh, .inr ⟨hcancelled', .inl ⟨_, hnext⟩⟩⟩
      · next hnot =>
        unfold acquire
        split
        · exact ⟨_, _, rfl, rfl, .inr ⟨hcancelled, .inl ⟨_, rfl⟩⟩⟩
        · next g hg =>
          simp only [List.getElem?_eq_getElem (hs.semaphore g hg), Option.map_some]
          split
          · refine ⟨_, _, rfl, rfl, .inr ⟨hcancelled, .inr ⟨hnot, hrest, g, rfl⟩⟩⟩
          · exact ⟨_, _, rfl, rfl, .inr ⟨hcancelled, .inl ⟨_, rfl⟩⟩⟩
    | release =>
      simp only [call, release]
      split <;> exact ⟨_, _, rfl, rfl, .inr ⟨hcancelled, .inl ⟨_, rfl⟩⟩⟩
    | _ => exact ⟨_, _, rfl, rfl, .inr ⟨hcancelled, .inl ⟨_, rfl⟩⟩⟩

/-- The `j`-th handler is over. -/
def DoneAt (s : AsyncListener) (j : Nat) : Prop :=
  ∃ h, s.handlers[j]? = some h ∧ h.rest.done = true

theorem done_moves (hdone : h.rest.done = true) (hh : Moves h h') : h'.rest.done = true := by
  have hnot : ∀ {o : Op} {k : o.Ans → Code Unit}, h.rest ≠ .call o k := by
    intro o k hrest
    rw [hrest] at hdone
    cases hdone
  cases hh with
  | answer o k r hrest => exact absurd hrest hnot
  | acquire k g hrest => exact absurd hrest hnot
  | refuse k e permit hrest => exact absurd hrest hnot
  | park k g hrest => exact absurd hrest hnot
  | release k r hrest => exact absurd hrest hnot
  | drop => rfl
  | cancel => exact hdone

/-- What the handlers keep of each other. -/
theorem kept_of_handlers (hrun : (machine self).Path onlyHandlers s t) (hs : Guarded s) :
    Guarded t ∧ Persists s t ∧ ∀ j, s.DoneAt j → t.DoneAt j := by
  refine Machine.Path.invariant
    (P := fun t => Guarded t ∧ Persists s t ∧ ∀ j, s.DoneAt j → t.DoneAt j) hrun
    ⟨hs, .same rfl, fun _ => id⟩ ?_
  rintro t a u ha ⟨hguarded, hpersists, hdone⟩ hu
  cases a with
  | handle i answers =>
    obtain ⟨h, h', hi, hh, hmoves⟩ := handle_moves hu
    have hstep : t.step self (.handle i answers) = some u := hu
    refine ⟨guarded_step hguarded hstep,
      hpersists.trans (.set hi hh fun hf => hf.moves hmoves), fun j hj => ?_⟩
    obtain ⟨x, hx, hxdone⟩ := hdone j hj
    rw [DoneAt, hh]
    by_cases hij : i = j
    · subst hij
      rw [hi] at hx
      obtain rfl := Option.some.inj hx
      exact ⟨h', List.getElem?_set_self (List.getElem?_eq_some_iff.mp hi).1,
        done_moves hxdone hmoves⟩
    · exact ⟨x, by rwa [List.getElem?_set_ne hij], hxdone⟩
  | callStart | start | callStop | stop | deliver | tick | lose | loseChannel => cases ha

/-- **A cancelled handler can go on to its end.** -/
theorem finishes (self : Config) (p : Code Unit) : ∀ (s : AsyncListener) (h : Handler), Guarded s →
    s.handlers[i]? = some h → h.rest = p → Freed h →
    ∃ t, (machine self).Path onlyHandlers s t ∧ t.DoneAt i := by
  induction p with
  | pure a => exact fun s h _ hi hrest _ => ⟨s, Machine.Path.refl s, h, hi, by rw [hrest]; rfl⟩
  | raise e => exact fun s h _ hi hrest _ => ⟨s, Machine.Path.refl s, h, hi, by rw [hrest]; rfl⟩
  | call o k ih =>
    intro s h hs hi hrest hfreed
    have hcancelled : h.cancelled = true := by
      rcases hfreed with hdone | hcancelled
      · rw [hrest] at hdone
        cases hdone
      · exact hcancelled
    have hstep : ∀ {s t : AsyncListener} {h h' : Handler}, s.handlers[i]? = some h →
        s.handle i succeeding = some t → t.handlers = s.handlers.set i h' →
        (machine self).Path onlyHandlers s t ∧ t.handlers[i]? = some h' := by
      intro s t h h' hi ht hh
      refine ⟨(Machine.Path.refl s).snoc (a := .handle i succeeding) trivial ht, ?_⟩
      rw [hh]
      exact List.getElem?_set_self (List.getElem?_eq_some_iff.mp hi).1
    -- once the call is answered, the rest is shorter
    have hanswered : ∀ (t : AsyncListener) (h' : Handler), Guarded t →
        t.handlers[i]? = some h' →
        (h'.rest.done = true ∨ h'.cancelled = true ∧ ∃ r, h'.rest = k r) →
        ∃ u, (machine self).Path onlyHandlers t u ∧ u.DoneAt i := by
      rintro t h' ht hi' (hdone | ⟨hcancelled', r, hr⟩)
      · exact ⟨t, Machine.Path.refl t, h', hi', hdone⟩
      · exact ih r t h' ht hi' hr (.inr hcancelled')
    obtain ⟨t, h', ht, hh, hnext⟩ := exists_answer hs hi hrest hcancelled
    obtain ⟨hpath, hi'⟩ := hstep hi ht hh
    have hguarded := (kept_of_handlers hpath hs).1
    rcases hnext with hdone | ⟨hcancelled', hr | ⟨-, hsame, g, hg⟩⟩
    · exact ⟨t, hpath, h', hi', hdone⟩
    · obtain ⟨u, hu, hdone⟩ := hanswered t h' hguarded hi' (.inr ⟨hcancelled', hr⟩)
      exact ⟨u, hpath.trans hu, hdone⟩
    · -- it queued for the semaphore, and leaves the queue again
      obtain ⟨u, h₂, hu, hh₂, hnext⟩ :=
        exists_answer hguarded hi' (hsame.trans hrest) hcancelled'
      obtain ⟨hpath₂, hi₂⟩ := hstep hi' hu hh₂
      have hguarded₂ := (kept_of_handlers hpath₂ hguarded).1
      obtain ⟨v, hv, hdone⟩ := hanswered u h₂ hguarded₂ hi₂ (by
        rcases hnext with hdone | ⟨hcancelled₂, hr | ⟨hnot, -⟩⟩
        · exact .inl hdone
        · exact .inr ⟨hcancelled₂, hr⟩
        · exact absurd hg (hnot g))
      exact ⟨v, (hpath.trans hpath₂).trans hv, hdone⟩

/-- So can all those that a `stop` waits for. -/
theorem all_finish (self : Config) (tasks : List Nat) (hs : Guarded s)
    (hfreed : ∀ j ∈ tasks, s.FreedAt j) :
    ∃ t, (machine self).Path onlyHandlers s t ∧ ∀ j ∈ tasks, t.DoneAt j := by
  induction tasks generalizing s with
  | nil => exact ⟨s, Machine.Path.refl s, nofun⟩
  | cons i tasks ih =>
    obtain ⟨h, hi, hf⟩ := hfreed i List.mem_cons_self
    obtain ⟨t, ht, hdone⟩ := finishes self h.rest s h hs hi rfl hf
    obtain ⟨hguarded, hpersists, -⟩ := kept_of_handlers ht hs
    obtain ⟨u, hu, hall⟩ := ih hguarded fun j hj =>
      hpersists.freed j (hfreed j (List.mem_cons_of_mem i hj))
    refine ⟨u, ht.trans hu, fun j hj => ?_⟩
    rcases List.mem_cons.mp hj with rfl | hj
    · exact (kept_of_handlers hu hguarded).2.2 j hdone
    · exact hall j hj

/-! ## A call of `stop` returns -/

/-- The handlers go on, and the `i`-th call of `stop`; nothing else is called. -/
def returning (i : Nat) (_ : AsyncListener) : Action → Prop
  | .handle _ _ | .tick _ => True
  | .stop j _ => j = i
  | _ => False

/-- A run in which the `i`-th call of `stop` has made `n` steps. -/
abbrev Runs (self : Config) (i : Nat) (s t : AsyncListener) (n : Nat) : Prop :=
  ((machine self).counting (ofStop i)).Path (fun q a => returning i q.1 a) (s, 0) (t, n)

theorem runs_of_handlers (hrun : (machine self).Path onlyHandlers s t) : Runs self i s t 0 := by
  refine Machine.Path.invariant (P := fun t => Runs self i s t 0) hrun
    (Machine.Path.refl (s, 0)) ?_
  intro t a u ha ht hu
  cases a with
  | handle j answers => exact ht.pass (.handle j answers) trivial rfl hu
  | callStart | start | callStop | stop | deliver | tick | lose | loseChannel => cases ha

/-- The step of `stop` that ends the await it is in. -/
theorem Runs.stop {pc : StopPc} (hrun : Runs self i s t 0) (hi : t.stops[i]? = some pc)
    (hgoes : (t.stopStep self true pc).isSome = true) : ∃ u, Runs self i s u 1 := by
  obtain ⟨p, hp⟩ := Option.isSome_iff_exists.mp hgoes
  refine ⟨{ p.1 with stops := p.1.stops.set i p.2 },
    hrun.count (.stop i true) rfl (by simp [ofStop]) ?_⟩
  simp only [machine, step, AsyncListener.stop, hi, Option.bind_some, hp, Option.map_some]

/-- **A call of `stop` can take its next step**, once those it waits for are over. -/
theorem exists_turn (self : Config) {pc : StopPc} (hs : Guarded s) (hi : s.stops[i]? = some pc)
    (hpc : pc ≠ .returned) : ∃ t, Runs self i s t 1 := by
  have hrefl : Runs self i s s 0 := Machine.Path.refl (s, 0)
  cases pc with
  | returned => exact absurd rfl hpc
  | wait tasks until_ =>
    have hlong := le_max_right 0 (until_ - s.clock)
    let later : AsyncListener := { s with clock := s.clock + max 0 (until_ - s.clock) }
    have hrun : Runs self i s later 0 :=
      hrefl.pass (.tick (max 0 (until_ - s.clock))) trivial rfl (by simp [machine, step, later])
    have hdue : until_ ≤ later.clock := sub_le_iff_le_add'.mp hlong
    by_cases hdone : later.allDone tasks = true
    · exact hrun.stop hi (by simp [stopStep, hdone])
    · exact hrun.stop hi (by simp [stopStep, hdone, hdue])
  | waitCancelled tasks =>
    obtain ⟨t, ht, hall⟩ := all_finish self tasks hs
      (hs.stops _ (List.mem_of_getElem? hi))
    have hdone : t.allDone tasks = true := by
      refine List.all_eq_true.mpr fun j hj => ?_
      obtain ⟨h, hh, hdone⟩ := hall j hj
      simp [hh, hdone]
    have hi' : t.stops[i]? = some (.waitCancelled tasks) := by rwa [stops_of_handlers ht]
    exact (runs_of_handlers ht).stop hi' (by simp [stopStep, hdone])
  | cancelConsumer | closeChannel | closeConnection => exact hrefl.stop hi rfl

/-- **Every call of `stop` returns.**  It takes five steps at most, whatever else is called
meanwhile.  And it waits for no one for good: from every state there is a run of the handlers
and of this call alone, in which it returns, also where the handlers in flight wait for a
permit that nobody gives back. -/
theorem stop_returns {c : AsyncListener → Action → Prop} (h : (machine self).Reach c s)
    (hi : i < s.stops.length) :
    (machine self).AtMost Machine.anyStep (ofStop i) 5 s ∧
      ∃ t, (machine self).Path (returning i) s t ∧ t.stops[i]? = some .returned := by
  have hs : Called i s ∧ Guarded s := ⟨hi, guarded_of_reach h⟩
  constructor
  · intro t k hk
    have hle : s.toReturn i ≤ 5 := by
      unfold toReturn
      cases s.stops[i]? with
      | none => exact Nat.zero_le 5
      | some pc => cases pc <;> simp [StopPc.toReturn]
    rcases (leads_to_return self i Machine.anyStep).reaches hi hk with hfalse | ⟨-, hpaid⟩
    · exact hfalse.elim
    · omega
  · have hleads : (machine self).Leads (returning i) (ofStop i) (fun s => Called i s ∧ Guarded s)
        (fun s => Called i s ∧ s.toReturn i = 0) (toReturn i) := by
      refine ⟨fun s a t _ hs ht => ?_, fun s a t _ hs ht => ?_⟩
      · obtain ⟨hcalled, hle⟩ := toReturn_step hs.1 ht
        exact .inr ⟨⟨hcalled, guarded_step hs.2 ht⟩, hle⟩
      · obtain ⟨hcalled, hle⟩ := toReturn_step hs.1 ht
        exact ⟨hcalled, by omega⟩
    have hreturned : ∀ {t : AsyncListener}, Called i t →
        (t.toReturn i = 0 ↔ t.stops[i]? = some .returned) := by
      intro t hcalled
      obtain ⟨pc, hget⟩ : ∃ pc, t.stops[i]? = some pc := ⟨_, List.getElem?_eq_getElem hcalled⟩
      unfold toReturn
      rw [hget, Option.elim_some, Option.some.injEq]
      cases pc <;> simp [StopPc.toReturn]
    obtain ⟨t, ht, hcalled, hzero⟩ := hleads.exists_goal (fun u hu hgoal => by
      obtain ⟨pc, hget⟩ : ∃ pc, u.stops[i]? = some pc := ⟨_, List.getElem?_eq_getElem hu.1⟩
      obtain ⟨v, hv⟩ := exists_turn self hu.2 hget fun heq =>
        hgoal ⟨hu.1, (hreturned hu.1).mpr (hget.trans (congrArg some heq))⟩
      exact ⟨v, 0, hv⟩) hs
    exact ⟨t, ht, (hreturned hcalled).mp hzero⟩

/-- One handler is inside the callback and another waits for its permit, and `stop` waits
for both. -/
def awaiting : AsyncListener :=
  ((machine acking).runIn (fun _ _ => true) initial
    (startAll 0 ++ [.deliver ⟨0, 1, none, none, [104]⟩, .deliver ⟨0, 2, none, none, [105]⟩] ++
      calls 0 3 ++ calls 1 2 ++ [.callStop, .stop 0 false])).getD initial

theorem stop_returns_awaiting :
    (machine acking).AtMost Machine.anyStep (ofStop 0) 5 awaiting ∧
      ∃ t, (machine acking).Path (returning 0) awaiting t ∧ t.stops[0]? = some .returned := by
  have hreach : (machine acking).Reach (fun _ _ => true = true) awaiting :=
    Machine.path_of_isSome (c := fun _ _ => true) (by decide +kernel) initial
  exact stop_returns hreach (by decide +kernel)

end AsyncListener

end MqAdapters
