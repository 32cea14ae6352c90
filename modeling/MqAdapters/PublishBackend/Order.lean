import MqAdapters.PublishBackend.Stop

/-!
# What the backend publishes

The requests that the loop passes to `basic_publish` are the first ones the
queue accepted, in their order (`published_in_order`).  A request that
`basic_publish` raised on is not passed on again, so what the loop has published
and what it still has to publish is everything exactly when no such call has
raised (`none_lost_iff`).
-/

namespace MqAdapters

open Python Theory

namespace PublishBackend

variable {self : Config} {s t : PublishBackend} {a : Action}

/-- The requests whose `basic_publish` returned, in order. -/
def succeeded (s : PublishBackend) : List PublishRequest :=
  (s.passed.filter (!·.raised)).map (·.request)

/-- The request that a call of `publish` is for: under the exchange of the
backend, with the explicit routing key if there is one and it is not empty. -/
def enqueues (self : Config) : Action → Option PublishRequest
  | .callPublish body routingKey => some {
      body := body
      exchange := self.exchange
      routingKey := (routingKey.filter (· ≠ "")).getD self.defaultRoutingKey }
  | _ => none

/-- The step is no `basic_publish` that raises. -/
def publishes (s : PublishBackend) : Action → Bool
  | .io raises _ => match s.thread with
    | some th => match th.pc with
      | .serve (.request _) => !raises
      | _ => true
    | none => true
  | _ => true

/-- Every accepted request is published, in the hands of the loop, or queued. -/
def NoneLost (s : PublishBackend) : Prop :=
  (s.succeeded ++ s.phase.held ++ Consumer.items s.queue).Perm s.accepted

theorem request_eq (self : Config) (body : Bytes) (routingKey : Option String) :
    enqueues self (.callPublish body routingKey) = some (self.request body routingKey) := by
  rcases routingKey with _ | rk
  · rfl
  · by_cases hrk : rk = "" <;> simp [enqueues, Config.request, Option.filter, hrk]

/-! ## One step -/

/-- The calls of `publish` that are under way or have returned. -/
theorem enqueued_step (h : s.step self a = some t) :
    (t.accepted ++ t.publishing).Perm (s.accepted ++ s.publishing ++ (enqueues self a).toList) := by
  have hc := step_cases h
  cases a with
  | io raises draw =>
    obtain ⟨th, -, h⟩ := hc
    have hf := io_frame h
    simp [hf.accepted, hf.publishing, enqueues]
  | callStart => obtain ⟨-, ⟨-, rfl⟩ | ⟨-, rfl⟩⟩ := hc <;> simp [enqueues]
  | start => obtain ⟨-, rfl⟩ | ⟨-, rfl⟩ := hc <;> simp [enqueues]
  | callStop wait => obtain rfl : t = _ := hc; simp [enqueues, callStop]
  | stop i =>
    obtain ⟨_, _, _, rfl⟩ := exists_stop h
    simp [enqueues]
  | callPublish body routingKey =>
    obtain rfl : t = _ := hc
    simp [request_eq, callPublish]
  | publish i =>
    obtain ⟨r, hr, rfl⟩ := hc
    obtain ⟨hi, rfl⟩ := List.getElem?_eq_some_iff.mp hr
    have hperm := List.getElem_cons_eraseIdx_perm hi
    simpa [enqueues] using hperm.append_left s.accepted
  | tick dt => obtain ⟨-, rfl⟩ := hc; simp [enqueues]
  | lose c => obtain rfl : t = _ := hc; simp [enqueues]

/-- The I/O thread calls `basic_publish` for the request it holds. -/
theorem passed_of_io {th : Thread} {raises : Bool} {draw : ℚ} (hp : Pooled self th)
    (h : s.io self th raises draw = some t) :
    match th.pc with
    | .serve (.request r) => ∃ ch, t.passed = s.passed ++ [⟨r, ch, raises⟩]
    | _ => t.passed = s.passed := by
  have hc := io_cases h
  obtain ⟨cs, stats, hclose⟩ := exists_closeConnection s th.conn raises
  unfold Pooled at hp
  cases hpc : th.pc <;> simp only [hpc] at hc hp
  case top | confirm => obtain rfl : t = _ := hc; rfl
  case connect =>
    obtain ⟨-, rfl⟩ | ⟨-, -, rfl⟩ | ⟨-, -, rfl⟩ := hc
    all_goals rfl
  case openChannels =>
    obtain ⟨-, rfl⟩ | ⟨-, -, rfl⟩ | ⟨-, -, -, rfl⟩ | ⟨-, -, -, rfl⟩ := hc
    all_goals rfl
  case connected => obtain ⟨timeout, -, rfl⟩ := hc; rfl
  case get =>
    obtain ⟨r, q, -, rfl⟩ | ⟨q, -, rfl⟩ | ⟨-, -, rfl⟩ := hc
    all_goals rfl
  case pump =>
    obtain ⟨-, rfl⟩ | ⟨-, -, rfl⟩ := hc
    all_goals rfl
  case serve item =>
    rcases item with _ | _ | r
    · obtain rfl : t = _ := hc; rfl
    · obtain rfl : t = _ := hc; rfl
    · obtain ⟨hch, -⟩ | ⟨ch, -, rfl⟩ := hc
      · exact absurd hch (channel_ne_none hp)
      · exact ⟨ch, rfl⟩
  case handler => obtain ⟨-, rfl⟩ := hc; rfl
  case sleep => obtain ⟨-, rfl⟩ := hc; rw [hclose]; rfl
  case cleanup => obtain rfl : t = _ := hc; rw [hclose]; rfl

/-- One more `basic_publish` at most, which raised if the step says so. -/
theorem passed_step (hw : Wellformed self s) (h : s.step self a = some t) :
    (publishes s a = true ∧ ∃ calls : List PublishCall, t.passed = s.passed ++ calls ∧
      ∀ call ∈ calls, call.raised = false) ∨
    (publishes s a = false ∧ ∃ call : PublishCall, t.passed = s.passed ++ [call] ∧
      call.raised = true) := by
  have hsame : t.passed = s.passed → ∃ calls : List PublishCall, t.passed = s.passed ++ calls ∧
      ∀ call ∈ calls, call.raised = false := fun he => ⟨[], by simp [he], by simp⟩
  have hc := step_cases h
  cases a with
  | io raises draw =>
    obtain ⟨th, hth, h⟩ := hc
    have hp := passed_of_io (hw.pooled th hth) h
    simp only [publishes, hth]
    split at hp
    · next r hpc =>
      obtain ⟨ch, hp⟩ := hp
      cases raises with
      | false => exact .inl ⟨rfl, _, hp, by simp⟩
      | true => exact .inr ⟨rfl, _, hp, rfl⟩
    · next hpc =>
      exact .inl ⟨rfl, hsame hp⟩
  | callStart => obtain ⟨-, ⟨-, rfl⟩ | ⟨-, rfl⟩⟩ := hc <;> exact .inl ⟨rfl, hsame rfl⟩
  | start => obtain ⟨-, rfl⟩ | ⟨-, rfl⟩ := hc <;> exact .inl ⟨rfl, hsame rfl⟩
  | stop i =>
    obtain ⟨_, _, _, rfl⟩ := exists_stop h
    exact .inl ⟨rfl, hsame rfl⟩
  | publish i => obtain ⟨r, -, rfl⟩ := hc; exact .inl ⟨rfl, hsame rfl⟩
  | tick dt => obtain ⟨-, rfl⟩ := hc; exact .inl ⟨rfl, hsame rfl⟩
  | callStop | callPublish | lose => obtain rfl : t = _ := hc; exact .inl ⟨rfl, hsame rfl⟩

/-! ## In order, and once -/

/-- The requests passed to `basic_publish` are the first that were accepted. -/
theorem passed_prefix {c : PublishBackend → Action → Prop} (h : (machine self).Reach c s) :
    s.passed.map (·.request) <+: s.accepted := by
  obtain ⟨-, ha⟩ := accounted_of_reach h
  rw [show s.accepted = _ from ha, List.append_assoc]
  exact List.prefix_append _ _

theorem succeeded_sublist (s : PublishBackend) :
    List.Sublist s.succeeded (s.passed.map (·.request)) :=
  List.filter_sublist.map _

theorem reach_of_runIn {as : List Action} {c : PublishBackend → Action → Bool}
    (h : (machine self).runIn c initial as = some s) : (machine self).Reach Machine.anyStep s :=
  (Machine.path_of_runIn h).mono fun _ _ _ => trivial

/-- **In order, and each at most once.**  The requests published are a subsequence
of those accepted: the `k`-th `basic_publish` is for the `k`-th accepted request.
The accepted ones are those that `publish` was called for, but for the calls
that still wait for the queue. -/
theorem published_in_order {as : List Action}
    (h : (machine self).runIn (fun _ _ => true) initial as = some s) :
    List.Sublist s.succeeded s.accepted ∧ s.passed.map (·.request) <+: s.accepted ∧
      (s.accepted ++ s.publishing).Perm (as.filterMap (enqueues self)) := by
  have hpre := passed_prefix (reach_of_runIn h)
  refine ⟨(succeeded_sublist s).trans hpre.sublist, hpre, ?_⟩
  refine Machine.runIn_invariant
    (P := fun as s => (s.accepted ++ s.publishing).Perm (as.filterMap (enqueues self)))
    h (List.Perm.refl _) ?_
  intro as s a t _ _ ih ht
  rw [List.filterMap_append]
  refine (enqueued_step ht).trans (ih.append ?_)
  cases he : enqueues self a <;> simp [he]

/-! ## Nothing lost -/

theorem none_lost_iff_none_raised (hs : (machine self).Reach Machine.anyStep s) :
    NoneLost s ↔ ∀ call ∈ s.passed, call.raised = false := by
  obtain ⟨-, ha⟩ := accounted_of_reach hs
  have ha : s.accepted = s.passed.map (·.request) ++ s.phase.held ++ Consumer.items s.queue := ha
  constructor
  · intro h
    have hlen := h.length_eq
    simp only [ha, succeeded, List.length_append, List.length_map] at hlen
    intro call hcall
    have := List.length_filter_eq_length_iff.mp
      (show (s.passed.filter (!·.raised)).length = s.passed.length by omega) call hcall
    simpa using this
  · intro h
    have hall : s.passed.filter (!·.raised) = s.passed :=
      List.filter_eq_self.mpr fun call hcall => by simp [h call hcall]
    unfold NoneLost succeeded
    rw [hall, ha]

/-- Whether a `basic_publish` has raised can be told from the run alone. -/
theorem none_raised_iff {as : List Action}
    (h : (machine self).runIn (fun _ _ => true) initial as = some s) :
    (∀ call ∈ s.passed, call.raised = false) ↔
      (machine self).runIn publishes initial as = some s := by
  refine Machine.runIn_invariant (P := fun as s => (∀ call ∈ s.passed, call.raised = false) ↔
      (machine self).runIn publishes initial as = some s) h
    ⟨fun _ => rfl, fun _ call hcall => absurd hcall List.not_mem_nil⟩ ?_
  intro as s a t hs _ ih ht
  rw [Machine.runIn_append]
  rcases passed_step (accounted_of_reach (reach_of_runIn hs)).1 ht with
    ⟨ha, calls, hp, hok⟩ | ⟨ha, call, hp, hbad⟩
  · constructor
    · intro h
      rw [ih.mp fun call hc => h call (hp ▸ List.mem_append_left _ hc), Option.bind_some,
        Machine.runIn_singleton, if_pos ha]
      exact ht
    · intro h call hc
      obtain ⟨u, hu, -⟩ := Option.bind_eq_some_iff.mp h
      -- there is one run on these actions
      have hus : u = s := Option.some.inj ((Machine.runIn_mono (fun _ _ _ => rfl) hu).symm.trans hs)
      rw [hp] at hc
      exact (List.mem_append.mp hc).elim (ih.mpr (hus ▸ hu) call) (hok call)
  · constructor
    · intro h
      exact absurd (h call (hp ▸ by simp)) (by simp [hbad])
    · intro h
      obtain ⟨u, hu, h⟩ := Option.bind_eq_some_iff.mp h
      have hus : u = s := Option.some.inj ((Machine.runIn_mono (fun _ _ _ => rfl) hu).symm.trans hs)
      simp [Machine.runIn_singleton, hus, ha] at h

/-- **Nothing is lost** in a run exactly when no `basic_publish` of it raises. -/
theorem none_lost_iff {as : List Action}
    (h : (machine self).runIn (fun _ _ => true) initial as = some s) :
    NoneLost s ↔ (machine self).runIn publishes initial as = some s :=
  (none_lost_iff_none_raised (reach_of_runIn h)).trans (none_raised_iff h)

/-! ## A run that loses a request -/

/-- `start`, two calls of `publish`, and the loop up to its first `basic_publish`;
the pool has one channel. -/
def beforePublish : List Action :=
  [.callStart, .start, .start, .callPublish [1] none, .callPublish [2] (some "urgent"),
    .publish 0, .publish 0] ++ List.replicate 7 (.io false 0)

/-- The first `basic_publish` raises; the loop sleeps, reconnects and publishes
the other request. -/
def losingRun : List Action :=
  beforePublish ++ [.io true 0, .io false 0, .tick 1] ++ List.replicate 9 (.io false 0)

def oneChannel : Config where
  exchange := "events"
  defaultRoutingKey := "all"
  channels := 1
  confirmDelivery := false
  queueMaxsize := 0
  heartbeatInterval := 0
  reconnectRetryPolicy := loopRetryPolicy

def afterLoss : PublishBackend :=
  ((machine oneChannel).runIn (fun _ _ => true) initial losingRun).getD initial

theorem afterLoss_run :
    (machine oneChannel).runIn (fun _ _ => true) initial losingRun = some afterLoss :=
  Machine.runIn_of_isSome (by decide +kernel) initial

theorem published_in_order_loss :
    List.Sublist afterLoss.succeeded afterLoss.accepted ∧
      afterLoss.passed.map (·.request) <+: afterLoss.accepted ∧
      (afterLoss.accepted ++ afterLoss.publishing).Perm
        (losingRun.filterMap (enqueues oneChannel)) :=
  published_in_order afterLoss_run

theorem none_lost_iff_loss : NoneLost afterLoss ↔
    (machine oneChannel).runIn publishes initial losingRun = some afterLoss :=
  none_lost_iff afterLoss_run

/-- The request whose `basic_publish` raised is gone, though nobody called `stop`
and every later call succeeds. -/
theorem failed_publish_loses_request : ∃ as s r,
    (machine oneChannel).runIn (fun _ _ => true) initial as = some s ∧
    (∀ wait, .callStop wait ∉ as) ∧ r ∈ s.accepted ∧
    r ∉ s.succeeded ++ s.phase.held ++ Consumer.items s.queue ∧ ¬ NoneLost s := by
  have hin : (⟨[1], "events", "all"⟩ : PublishRequest) ∈ afterLoss.accepted := by
    decide +kernel
  have hout : (⟨[1], "events", "all"⟩ : PublishRequest) ∉
      afterLoss.succeeded ++ afterLoss.phase.held ++ Consumer.items afterLoss.queue := by
    decide +kernel
  refine ⟨losingRun, afterLoss, _, afterLoss_run, fun wait => ?_, hin, hout,
    fun h => hout (h.mem_iff.mpr hin)⟩
  simp [losingRun, beforePublish]

end PublishBackend

end MqAdapters
