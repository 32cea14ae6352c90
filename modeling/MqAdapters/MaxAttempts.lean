import MqAdapters.Listener.Attempts
import MqAdapters.PublishBackend.Attempts

/-!
# What `max_attempts` bounds

A `RetryPolicy` says how many attempts there are before giving up.  `sync_retry`
keeps to it; the reconnect loops do not, nor does the listener's connect, which is a
`sync_retry` inside one of them.  They give up only where a delay of theirs raises in
the `except` handler.

* `maxAttempts_honoured_iff`: when a policy of `n` attempts is honoured, in each of
  the three places that take one.
* `maxAttempts_exceeded`: with a policy of one attempt there are two.
-/

namespace MqAdapters

open Theory

/-- A loop that only pauses gives up within `n` failures exactly when it cannot pause
after one of them. -/
theorem RetryPolicy.lasts_afterFailure (self : RetryPolicy) (n failures : Nat) :
    lasts self.afterFailure n failures = false ↔ ∃ i < n, self.stuck (failures + i + 2) = true := by
  induction n generalizing failures with
  | zero => simp [lasts]
  | succ n ih =>
    by_cases hstuck : self.stuck (failures + 2) = true
    · have hnone : self.afterFailure failures = none := if_pos hstuck
      rw [lasts, hnone]
      exact iff_of_true rfl ⟨0, by omega, by simpa using hstuck⟩
    · have hsome : self.afterFailure failures = some (failures + 1) := if_neg hstuck
      rw [lasts_succ hsome, ih]
      constructor
      · rintro ⟨i, hi, h⟩
        refine ⟨i + 1, by omega, ?_⟩
        rw [← h]
        congr 1
        omega
      · rintro ⟨i, hi, h⟩
        cases i with
        | zero => exact absurd (by simpa using h) hstuck
        | succ i =>
          refine ⟨i, by omega, ?_⟩
          rw [← h]
          congr 1
          omega

/-- **A policy of `n` attempts is honoured exactly where the delays run out by
then**, by the connects of the backend, by those of the listener, and by its
`process_data_events` with the set-up before it. -/
theorem maxAttempts_honoured_iff {n : Nat} (_hn : 1 ≤ n) :
    (∀ (self : PublishBackend.Config) (failures : Nat) (s : PublishBackend),
      self.reconnectRetryPolicy.maxAttempts = some (n : Int) → s.AtHead failures →
        ((PublishBackend.machine self).AtMost PublishBackend.refusing PublishBackend.connects n s ↔
          ∃ i < n, self.reconnectRetryPolicy.stuck (failures + i + 2) = true)) ∧
    (∀ (self : ListenerLoop.Config) (failures : Nat) (s : ListenerLoop),
      self.connectRetryPolicy.maxAttempts = some (n : Int) → s.AtHead failures →
        s.connected = false →
        ((ListenerLoop.machine self).AtMost ListenerLoop.refusing ListenerLoop.connects n s ↔
          lasts (ListenerLoop.afterConnect self) n (failures, 1) = false)) ∧
    (∀ (self : ListenerLoop.Config) (failures : Nat) (s : ListenerLoop),
      self.loopRetryPolicy.maxAttempts = some (n : Int) → s.AtHead failures →
        ((ListenerLoop.machine self).AtMost ListenerLoop.failing ListenerLoop.fails n s ↔
          lasts (ListenerLoop.afterPump self) n failures = false)) := by
  refine ⟨?_, ?_, ?_⟩
  · intro self failures s _ hs
    rw [PublishBackend.connects_atMost_iff self hs n, RetryPolicy.lasts_afterFailure]
  · exact fun self failures s _ hs hconn => ListenerLoop.connects_atMost_iff self hs hconn n
  · exact fun self failures s _ hs => ListenerLoop.failures_atMost_iff self hs n

/-! ## A policy of one attempt -/

/-- One attempt, with the delays of `__init__`. -/
def oneAttempt : RetryPolicy := { loopRetryPolicy with maxAttempts := some 1 }

/-- One attempt, and a delay that cannot be slept. -/
def oneAttemptStuck : RetryPolicy := { oneAttempt with baseDelay := -1, jitter := 0 }

namespace PublishBackend

def withPolicy (policy : RetryPolicy) : Config :=
  { defaultConfig with reconnectRetryPolicy := policy }

/-- `start`, up to the head of the loop. -/
def atHead (policy : RetryPolicy) : PublishBackend :=
  ((machine (withPolicy policy)).runIn (fun _ _ => true) initial
    [.callStart, .start, .start]).getD initial

theorem atHead_reach (policy : RetryPolicy) :
    (machine (withPolicy policy)).Reach Machine.anyStep (atHead policy) :=
  (Machine.path_of_isSome (M := machine (withPolicy policy)) (c := fun _ _ => true) rfl
    initial).mono fun _ _ _ => trivial

theorem atHead_atHead (policy : RetryPolicy) : AtHead 0 (atHead policy) :=
  ⟨⟨_, rfl, rfl, rfl⟩, rfl, rfl⟩

end PublishBackend

namespace ListenerLoop

/-- `run`, at the head of its loop. -/
def atHead : ListenerLoop := { initial with running := true, pc := .top }

theorem atHead_reach (self : Config) : (machine self).Reach Machine.anyStep atHead :=
  (Machine.Path.refl initial).snoc (a := .io false false 0) trivial rfl

theorem atHead_atHead : AtHead 0 atHead := ⟨rfl, rfl, rfl⟩

end ListenerLoop

/-- Where the first delays raise, one attempt is all there is. -/
theorem maxAttempts_honoured_once :
    (PublishBackend.machine (PublishBackend.withPolicy oneAttemptStuck)).AtMost
      PublishBackend.refusing PublishBackend.connects 1 (PublishBackend.atHead oneAttemptStuck) ∧
    (ListenerLoop.machine ⟨oneAttemptStuck, oneAttemptStuck⟩).AtMost
      ListenerLoop.refusing ListenerLoop.connects 1 ListenerLoop.atHead ∧
    (ListenerLoop.machine ⟨oneAttemptStuck, oneAttemptStuck⟩).AtMost
      ListenerLoop.failing ListenerLoop.fails 1 ListenerLoop.atHead := by
  obtain ⟨hbackend, hconnect, hpump⟩ := maxAttempts_honoured_iff (le_refl 1)
  refine ⟨?_, ?_, ?_⟩
  · exact (hbackend (PublishBackend.withPolicy oneAttemptStuck) 0 _ rfl
      (PublishBackend.atHead_atHead _)).mpr ⟨0, by decide, by decide +kernel⟩
  · exact (hconnect ⟨oneAttemptStuck, oneAttemptStuck⟩ 0 _ rfl ListenerLoop.atHead_atHead
      rfl).mpr (by decide +kernel)
  · exact (hpump ⟨oneAttemptStuck, oneAttemptStuck⟩ 0 _ rfl ListenerLoop.atHead_atHead).mpr
      (by decide +kernel)

/-- **A policy of one attempt is not honoured**: the factory that raises is called
again by the backend and by the listener, and `process_data_events` that raises is
called again too. -/
theorem maxAttempts_exceeded :
    (∃ s, (PublishBackend.machine (PublishBackend.withPolicy oneAttempt)).Reach Machine.anyStep s ∧
      s.AtHead 0 ∧ ¬ (PublishBackend.machine (PublishBackend.withPolicy oneAttempt)).AtMost
        PublishBackend.refusing PublishBackend.connects 1 s) ∧
    (∃ s, (ListenerLoop.machine ⟨oneAttempt, oneAttempt⟩).Reach Machine.anyStep s ∧
      s.AtHead 0 ∧ s.connected = false ∧
      ¬ (ListenerLoop.machine ⟨oneAttempt, oneAttempt⟩).AtMost
        ListenerLoop.refusing ListenerLoop.connects 1 s ∧
      ¬ (ListenerLoop.machine ⟨oneAttempt, oneAttempt⟩).AtMost
        ListenerLoop.failing ListenerLoop.fails 1 s) := by
  refine ⟨⟨_, PublishBackend.atHead_reach _, PublishBackend.atHead_atHead _, fun hmost => ?_⟩,
    ⟨_, ListenerLoop.atHead_reach _, ListenerLoop.atHead_atHead, rfl, fun hmost => ?_,
      fun hmost => ?_⟩⟩
  · have h := (PublishBackend.connects_atMost_iff _ (PublishBackend.atHead_atHead _) 1).mp hmost
    exact absurd h (by decide +kernel)
  · have h := (ListenerLoop.connects_atMost_iff _ ListenerLoop.atHead_atHead rfl 1).mp hmost
    exact absurd h (by decide +kernel)
  · have h := (ListenerLoop.failures_atMost_iff _ ListenerLoop.atHead_atHead 1).mp hmost
    exact absurd h (by decide +kernel)

end MqAdapters
