import MqAdapters.AsyncSender.Steps

/-!
# How often one `send` connects and publishes

`send` retries a body that calls `start`, and `start` retries on its own under
the same policy.  So `n` attempts of `send` publish at most `n` times, but each
of them may call the connection factory `n` times.

* `StartPc.left`, `SendPc.factoryLeft`, `SendPc.publishLeft`: the calls that
  are still possible from a point of the program.
* `Budget`: the calls made and those still possible are within given bounds.
* `send_within_policy`: the bounds, for one `send` that nothing else joins.
-/

namespace MqAdapters

open Python Theory

namespace AsyncSender

variable {self : Config} {s t : AsyncSender} {i attempt n F P : Nat} {draw : ℚ}

/-- The calls of the factory that a `start` under `max_attempts = n` may still
make. -/
def StartPc.left (n : Nat) : StartPc → Nat
  | .factory attempt | .channel attempt _ | .declare attempt _ | .sleep attempt _ => n - attempt

/-- A sleep is followed by another attempt. -/
def StartPc.Within (n : Nat) : StartPc → Prop
  | .sleep attempt _ => attempt < n
  | _ => True

/-- The calls of the factory that a `send` under `max_attempts = n` may still
make. -/
def SendPc.factoryLeft (n : Nat) : SendPc → Nat
  | .begin => n * n
  | .starting attempt pc => (n - attempt) * n + pc.left n
  | .gather attempt _ | .confirm attempt _ | .sleep attempt _ => (n - attempt) * n
  | .returned | .raised => 0

/-- The calls of `exchange.publish` that it may still make. -/
def SendPc.publishLeft (n : Nat) : SendPc → Nat
  | .begin => n
  | .starting attempt _ => n - attempt + 1
  | .gather attempt _ | .confirm attempt _ | .sleep attempt _ => n - attempt
  | .returned | .raised => 0

/-- A sleep of either loop is followed by another attempt. -/
def SendPc.Within (n : Nat) : SendPc → Prop
  | .starting _ pc => pc.Within n
  | .sleep attempt _ => attempt < n
  | _ => True

/-- With what the `i`-th `send` may still do, there are at most `F` calls of the
factory and `P` publishes. -/
def Budget (n i F P : Nat) (s : AsyncSender) : Prop :=
  ∃ call, s.sends[i]? = some call ∧ call.pc.Within n ∧
    s.factoryCalls + call.pc.factoryLeft n ≤ F ∧
    s.confirms.items.length + call.pc.publishLeft n ≤ P

/-! ## One step of `send` -/

theorem budget_sendAt {call : SendCall} {pc : SendPc} (hcall : s.sends[i]? = some call)
    (hw : pc.Within n) (hF : s.factoryCalls + pc.factoryLeft n ≤ F)
    (hP : s.confirms.items.length + pc.publishLeft n ≤ P) : Budget n i F P (s.sendAt i pc) :=
  ⟨{ call with pc := pc }, by simp [sendAt, hcall], hw, hF, hP⟩

/-- A `send` that is over calls nothing more. -/
theorem budget_over {call : SendCall} {pc : SendPc} (hpc : pc = .returned ∨ pc = .raised)
    {F' P' : Nat} (hcall : s.sends[i]? = some call) (hF : s.factoryCalls + F' ≤ F)
    (hP : s.confirms.items.length + P' ≤ P) : Budget n i F P (s.sendAt i pc) := by
  rcases hpc with rfl | rfl
  all_goals
    refine budget_sendAt hcall trivial ?_ ?_
    · simp only [SendPc.factoryLeft]; omega
    · simp only [SendPc.publishLeft]; omega

/-- Another attempt follows only while there are attempts left. -/
theorem retryAt_lt (hn : self.retryPolicy.maxAttempts = some (n : Int)) {until_ : ℚ}
    (h : s.retryAt self attempt draw = some until_) : attempt < n := by
  unfold retryAt at h
  rw [hn] at h
  by_contra hle
  rw [if_pos (by simpa using hle)] at h
  cases h

theorem budget_sendFailed (hn : self.retryPolicy.maxAttempts = some (n : Int)) {call : SendCall}
    (hcall : s.sends[i]? = some call)
    (hF : s.factoryCalls + (n - attempt) * n ≤ F)
    (hP : s.confirms.items.length + (n - attempt) ≤ P) :
    Budget n i F P (s.sendFailed self i attempt draw) := by
  unfold sendFailed
  cases hr : s.retryAt self attempt draw with
  | none =>
    exact budget_sendAt (s := { s with channel := none, exchange := none, conn := none }) hcall
      trivial (by simp only [SendPc.factoryLeft]; omega) (by simp only [SendPc.publishLeft]; omega)
  | some until_ => exact budget_sendAt hcall (retryAt_lt hn hr) hF hP

/-- One attempt publishes at most once. -/
theorem budget_publish (hn : self.retryPolicy.maxAttempts = some (n : Int))
    {call call' : SendCall} (hcall : s.sends[i]? = some call')
    (hF : s.factoryCalls + (n - attempt) * n ≤ F)
    (hP : s.confirms.items.length + (n - attempt + 1) ≤ P) :
    Budget n i F P (s.publish self i call attempt draw) := by
  unfold publish
  split
  · exact budget_sendFailed hn hcall hF (by omega)
  · next exchange _ =>
    have hlen : ∀ p : Publish,
        (s.confirms.alone p).items.length + (n - attempt) ≤ P := by
      intro p
      simp only [Batching.alone, List.length_append, List.length_singleton]
      omega
    dsimp only
    split
    · split
      · exact budget_sendAt (s := flushConfirms { s with confirms := s.confirms.add _ }) hcall
          trivial hF (hlen _)
      · exact budget_sendAt (s := { s with confirms := s.confirms.add _ }) hcall trivial
          (by simp only [SendPc.factoryLeft]; omega)
          (by
            have := hlen ⟨i, exchange, call.body, self.routingKeyFor call.routingKey⟩
            simp only [SendPc.publishLeft]
            exact (Nat.le_add_right _ _).trans this)
    · exact budget_sendAt (s := { s with confirms := s.confirms.alone _ }) hcall trivial hF (hlen _)

/-- What `start` may still do, once it has gone on or ended. -/
def Starting.left (n : Nat) : Starting → Nat
  | .going pc => pc.left n
  | .returned | .raised => 0

def Starting.Within (n : Nat) : Starting → Prop
  | .going pc => pc.Within n
  | .returned | .raised => True

theorem startFailed_left (hn : self.retryPolicy.maxAttempts = some (n : Int)) :
    let p := s.startFailed self attempt draw
    p.2.Within n ∧ p.1.factoryCalls + p.2.left n ≤ s.factoryCalls + (n - attempt) := by
  unfold startFailed
  cases hr : s.retryAt self attempt draw with
  | none => exact ⟨trivial, by simp only [Starting.left]; omega⟩
  | some until_ => exact ⟨retryAt_lt hn hr, Nat.le_refl _⟩

/-- A step of `start` makes no more calls than were left. -/
theorem startStep_left (hn : self.retryPolicy.maxAttempts = some (n : Int)) {raises : Bool}
    {pc : StartPc} {p : AsyncSender × Starting} (hw : pc.Within n)
    (h : s.startStep self raises draw pc = some p) :
    p.2.Within n ∧ p.1.factoryCalls + p.2.left n ≤ s.factoryCalls + pc.left n := by
  cases pc with
  | factory attempt =>
    cases h
    split
    · exact startFailed_left hn
    · exact ⟨trivial, Nat.le_refl _⟩
  | channel attempt c =>
    cases h
    split
    · exact startFailed_left hn
    · exact ⟨trivial, Nat.le_refl _⟩
  | declare attempt k =>
    cases h
    split
    · exact startFailed_left hn
    · refine ⟨trivial, ?_⟩
      have hcalls : ({ s with exchange := some k }.startFlusher self).factoryCalls =
          s.factoryCalls := by
        unfold startFlusher
        split <;> rfl
      simp only [hcalls, Starting.left]
      omega
  | sleep attempt until_ =>
    have hlt : attempt < n := hw
    simp only [startStep] at h
    split at h <;> cases h
    refine ⟨trivial, ?_⟩
    simp only [callFactory, Starting.left, StartPc.left]
    omega

theorem startBegin_left (hpos : 1 ≤ n) :
    s.startBegin.2.Within n ∧
      s.startBegin.1.factoryCalls + s.startBegin.2.left n ≤ s.factoryCalls + n := by
  unfold startBegin
  split
  · exact ⟨trivial, by simp only [Starting.left]; omega⟩
  · refine ⟨trivial, ?_⟩
    simp only [callFactory, Starting.left, StartPc.left]
    omega

/-- `start` inside an attempt of `send` has gone on. -/
theorem budget_sendStarting (hn : self.retryPolicy.maxAttempts = some (n : Int))
    {call call' : SendCall} {starting : Starting} (hcall : s.sends[i]? = some call')
    (hw : starting.Within n)
    (hF : s.factoryCalls + ((n - attempt) * n + starting.left n) ≤ F)
    (hP : s.confirms.items.length + (n - attempt + 1) ≤ P) :
    Budget n i F P (s.sendStarting self i call attempt draw starting) := by
  cases starting with
  | going pc => exact budget_sendAt hcall hw hF hP
  | returned => exact budget_publish hn hcall (by simp only [Starting.left] at hF; omega) hP
  | raised =>
    exact budget_sendFailed hn hcall (by simp only [Starting.left] at hF; omega) (by omega)

/-- A new attempt of `send`. -/
theorem budget_doPublish (hn : self.retryPolicy.maxAttempts = some (n : Int)) (hpos : 1 ≤ n)
    {call call' : SendCall} (hcall : s.sends[i]? = some call')
    (hF : s.factoryCalls + ((n - attempt) * n + n) ≤ F)
    (hP : s.confirms.items.length + (n - attempt + 1) ≤ P) :
    Budget n i F P (s.doPublish self i call attempt draw) := by
  unfold doPublish
  split
  · exact budget_publish hn hcall (by omega) hP
  · obtain ⟨hw, hleft⟩ := startBegin_left (s := s) hpos
    have hal := startBegin_alongside s
    exact budget_sendStarting hn (by rw [hal.sends, hcall]) hw (by omega)
      (by rw [hal.confirms]; omega)

/-- **A step of `send` stays within the budget.** -/
theorem budget_send (hn : self.retryPolicy.maxAttempts = some (n : Int)) (hpos : 1 ≤ n)
    {raises : Bool} (hb : Budget n i F P s) (h : s.send self i raises draw = some t) :
    Budget n i F P t := by
  obtain ⟨call, hcall, hw, hF, hP⟩ := hb
  -- the attempt after a sleep is one of those that were left
  have hnext : ∀ attempt, attempt < n → (n - (attempt + 1)) * n + n = (n - attempt) * n := by
    intro attempt hlt
    rw [← Nat.succ_mul]
    congr 1
    omega
  simp only [send, hcall, Option.bind_some] at h
  split at h
  · cases h
  · cases hpc : call.pc <;> simp only [hpc] at h hw hF hP
    case begin =>
      cases h
      have hfirst := hnext 0 (by omega)
      simp only [SendPc.factoryLeft, SendPc.publishLeft, Nat.zero_add, Nat.sub_zero] at hF hP hfirst
      exact budget_doPublish hn hpos hcall (by omega) (by omega)
    case starting attempt pc =>
      obtain ⟨p, hp, rfl⟩ := Option.map_eq_some_iff.mp h
      obtain ⟨hw, hleft⟩ := startStep_left hn hw hp
      have hal := startStep_alongside hp
      simp only [SendPc.factoryLeft, SendPc.publishLeft] at hF hP
      exact budget_sendStarting hn (by rw [hal.sends, hcall]) hw (by omega)
        (by rw [hal.confirms]; omega)
    case gather attempt b =>
      obtain ⟨v, -, rfl⟩ := Option.map_eq_some_iff.mp h
      cases v with
      | ok => exact budget_over (.inl rfl) hcall hF hP
      | failed => exact budget_sendFailed hn hcall hF hP
      | cancelled => exact budget_over (.inr rfl) hcall hF hP
    case confirm attempt f =>
      cases ho : s.confirms.outcome f <;> simp only [sendConfirmed, ho] at h <;> cases h
      case succeeded => exact budget_over (.inl rfl) hcall hF hP
      case failed => exact budget_sendFailed hn hcall hF hP
      case cancelled => exact budget_over (.inr rfl) hcall hF hP
    case sleep attempt until_ =>
      split at h <;> cases h
      have hlt : attempt < n := hw
      have hnext := hnext attempt hlt
      simp only [SendPc.factoryLeft, SendPc.publishLeft] at hF hP
      exact budget_doPublish hn hpos hcall (by omega) (by omega)
    case returned | raised => cases h

/-! ## A whole `send` -/

/-- Only the `i`-th call of `send` moves, and what goes on without being called:
publish confirms and gathers end, the flusher runs, time passes, connections and
channels are lost. -/
def only (i : Nat) : AsyncSender → Action → Prop
  | _, .send j _ _ => j = i
  | _, .callSend _ _ | _, .callStart | _, .start _ _ _ | _, .callStop | _, .stop _ _ => False
  | _, _ => True

theorem budget_of_same (hb : Budget n i F P s) (hsends : t.sends = s.sends)
    (hcalls : t.factoryCalls = s.factoryCalls)
    (hlen : t.confirms.items.length = s.confirms.items.length) : Budget n i F P t := by
  obtain ⟨call, hcall, hw, hF, hP⟩ := hb
  exact ⟨call, by rw [hsends, hcall], hw, by rw [hcalls]; exact hF, by rw [hlen]; exact hP⟩

theorem flush_factoryCalls (h : s.flush self = some t) : t.factoryCalls = s.factoryCalls := by
  obtain ⟨flusher, -, h⟩ := Option.bind_eq_some_iff.mp h
  cases flusher with
  | begin => cases h; rfl
  | sleep until_ =>
    simp only at h
    split at h <;> cases h
    split <;> rfl
  | gather b =>
    obtain ⟨v, -, rfl⟩ := Option.map_eq_some_iff.mp h
    cases v <;> rfl

/-- **Every step of a `send` on its own stays within the budget.** -/
theorem budget_step (hn : self.retryPolicy.maxAttempts = some (n : Int)) (hpos : 1 ≤ n)
    {a : Action} (ha : only i s a) (hb : Budget n i F P s) (h : s.step self a = some t) :
    Budget n i F P t := by
  cases a with
  | send j raises draw =>
    obtain rfl : j = i := ha
    exact budget_send hn hpos hb h
  | flush =>
    have hcalls := flush_factoryCalls h
    obtain ⟨hsends, -, -, ⟨hc, -⟩ | ⟨-, -, hc, -⟩⟩ := flush_cases h
    · exact budget_of_same hb hsends hcalls (by rw [hc])
    · exact budget_of_same hb hsends hcalls (by rw [hc]; rfl)
  | settle f ok =>
    cases h
    exact budget_of_same hb rfl rfl (Batching.length_settle f ok)
  | gathered b =>
    obtain ⟨confirms, hclose, rfl⟩ := Option.map_eq_some_iff.mp h
    exact budget_of_same hb rfl rfl (by rw [Batching.items_close hclose])
  | tick dt =>
    obtain ⟨-, rfl⟩ := tick_cases h
    exact budget_of_same hb rfl rfl rfl
  | lose | loseChannel =>
    cases h
    exact budget_of_same hb rfl rfl rfl
  | callSend | callStart | start | callStop | stop => exact absurd ha id

/-- **One `send` under `max_attempts = n`** publishes at most `n` times and calls
the connection factory at most `n` times in each of its `n` attempts. -/
theorem send_within_policy (self : Config) (n : Nat)
    (hn : self.retryPolicy.maxAttempts = some (n : Int)) (hpos : 1 ≤ n)
    (s t : AsyncSender) (body : Bytes) (routingKey : Option String)
    (h : (machine self).Path (only s.sends.length)
      { s with sends := s.sends ++ [⟨body, routingKey, .begin⟩] } t) :
    t.factoryCalls ≤ s.factoryCalls + n * n ∧
      t.confirms.items.length ≤ s.confirms.items.length + n := by
  have hb : Budget n s.sends.length (s.factoryCalls + n * n) (s.confirms.items.length + n) t := by
    refine Machine.Path.invariant h ⟨⟨body, routingKey, .begin⟩, ?_, trivial, ?_, ?_⟩
      fun s a t ha hb ht => budget_step hn hpos ha hb ht
    · simp
    · exact Nat.le_refl _
    · exact Nat.le_refl _
  obtain ⟨call, -, -, hF, hP⟩ := hb
  exact ⟨by omega, by omega⟩

/-! ## The bound is reached -/

/-- A policy without waiting, and a sender without confirms. -/
def eager (n : Nat) : Config := ⟨false, ⟨some n, 0, 0, 1, 0⟩, 0, 0, none⟩

/-- Only one `send` has been called, and the factory `c` times. -/
def lone (body : Bytes) (pc : SendPc) (c : Nat) : AsyncSender :=
  { initial with sends := [⟨body, none, pc⟩], factoryCalls := c }

theorem eager_retryAt {a : Nat} (ha : a < n) : s.retryAt (eager n) a 0 = some s.clock := by
  have hpow : ∀ k, floatPow 1 k = .ok 1 := by
    intro k
    rw [floatPow, one_pow, if_pos (by simpa using (two_pow_le_maxDouble_iff 0).mpr (by omega))]
  have hdelay : (eager n).retryPolicy.delayForAttempt (a + 1) 0 = .ok 0 := by
    by_cases h : (a : Int) + 1 ≤ 1 <;>
      simp [eager, RetryPolicy.delayForAttempt, RetryPolicy.backoff, hpow, h, Except.map]
  unfold retryAt
  rw [if_neg (by simp [eager, ha]), hdelay]
  simp

theorem eager_retryAt_none {a : Nat} (ha : n ≤ a) : s.retryAt (eager n) a 0 = none := by
  unfold retryAt
  rw [if_pos (by simp [eager, ha])]

/-- The next step of the only `send`; the factory raises whenever it is called. -/
def refuse (n : Nat) (s : AsyncSender) : Option AsyncSender := s.send (eager n) 0 true 0

variable {body : Bytes} {a b c : Nat}

theorem refuse_begin :
    refuse n (lone body .begin 0) = some (lone body (.starting 1 (.factory 1)) 1) := rfl

theorem refuse_factory (hb : b < n) : refuse n (lone body (.starting a (.factory b)) c) =
    some (lone body (.starting a (.sleep b 0)) c) := by
  have hfailed : (lone body (.starting a (.factory b)) c).startFailed (eager n) b 0 =
      (lone body (.starting a (.factory b)) c, .going (.sleep b 0)) := by
    rw [startFailed, eager_retryAt hb]
    rfl
  change some (sendStarting (eager n) _ 0 _ a 0 (startFailed (eager n) _ b 0).2) = _
  rw [hfailed]
  rfl

theorem refuse_sleep : refuse n (lone body (.starting a (.sleep b 0)) c) =
    some (lone body (.starting a (.factory (b + 1))) (c + 1)) := rfl

/-- The last attempt of `start` fails an attempt of `send`. -/
theorem refuse_last (ha : a < n) : refuse n (lone body (.starting a (.factory n)) c) =
    some (lone body (.sleep a 0) c) := by
  have hfailed : (lone body (.starting a (.factory n)) c).startFailed (eager n) n 0 =
      (lone body (.starting a (.factory n)) c, .raised) := by
    rw [startFailed, eager_retryAt_none (Nat.le_refl n)]
  change some (sendStarting (eager n) _ 0 _ a 0 (startFailed (eager n) _ n 0).2) = _
  rw [hfailed, sendStarting, sendFailed, eager_retryAt ha]
  rfl

theorem refuse_again : refuse n (lone body (.sleep a 0) c) =
    some (lone body (.starting (a + 1) (.factory 1)) (c + 1)) := rfl

theorem path_refuse {s t u : AsyncSender}
    (h : (machine (eager n)).Path (only 0) s t) (hu : refuse n t = some u) :
    (machine (eager n)).Path (only 0) s u :=
  h.snoc (a := .send 0 true 0) rfl hu

/-- All attempts of the `a`-th `start`, from its first call of the factory. -/
theorem path_start (hb : 1 ≤ b) (hbn : b ≤ n) :
    (machine (eager n)).Path (only 0) (lone body (.starting a (.factory 1)) (c + 1))
      (lone body (.starting a (.factory b)) (c + b)) := by
  induction b, hb using Nat.le_induction with
  | base => exact .refl _
  | succ b hb ih =>
    have hslept := path_refuse (ih (by omega)) (refuse_factory hbn)
    exact path_refuse hslept refuse_sleep

/-- All attempts of `send`, each with all attempts of its `start`. -/
theorem path_send (hn : 1 ≤ n) (ha : 1 ≤ a) (han : a ≤ n) :
    (machine (eager n)).Path (only 0) (lone body .begin 0)
      (lone body (.starting a (.factory n)) (a * n)) := by
  induction a, ha using Nat.le_induction with
  | base =>
    have h : (machine (eager n)).Path (only 0) (lone body .begin 0)
        (lone body (.starting 1 (.factory n)) (0 + n)) :=
      (path_refuse (.refl _) refuse_begin).trans (path_start hn (Nat.le_refl n))
    rw [Nat.zero_add] at h
    rw [Nat.one_mul]
    exact h
  | succ a ha ih =>
    have h := path_refuse (path_refuse (ih (by omega)) (refuse_last han)) refuse_again
    rw [Nat.succ_mul]
    exact h.trans (path_start hn (Nat.le_refl n))

/-- **Some `send` calls the factory `n * n` times.** -/
theorem factoryCalls_reached (hn : 1 ≤ n) (body : Bytes) :
    ∃ t, (machine (eager n)).Path (only 0) (lone body .begin 0) t ∧ t.factoryCalls = n * n :=
  ⟨_, path_send hn hn (Nat.le_refl n), rfl⟩

theorem send_within_policy_eager :
    (lone [] (.starting 2 (.factory 2)) 4).factoryCalls ≤ initial.factoryCalls + 2 * 2 :=
  (send_within_policy (eager 2) 2 rfl (by decide) initial _ [] none
    (path_send (n := 2) (a := 2) (by decide) (by decide) (by decide))).1

/-- Under `max_attempts = 2`, one `send` calls the factory four times. -/
theorem send_exceeds_policy :
    (eager 2).retryPolicy.maxAttempts = some 2 ∧
      ∃ t, (machine (eager 2)).Path (only initial.sends.length)
        { initial with sends := initial.sends ++ [⟨[], none, .begin⟩] } t ∧
        ¬ t.factoryCalls ≤ initial.factoryCalls + 2 := by
  obtain ⟨t, ht, hcalls⟩ := factoryCalls_reached (n := 2) (by omega) []
  exact ⟨rfl, t, ht, by rw [hcalls]; decide⟩

end AsyncSender

end MqAdapters
