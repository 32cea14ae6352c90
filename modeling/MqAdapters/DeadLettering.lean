import Mathlib.Algebra.Ring.Int.Defs
import MqAdapters.Python.Value

/-!
# Dead-lettering configuration and the attempt count

`resolveDeadLetteringConfig` reads `on_error`, `dead_letter_queue` and
`max_retries` out of the queue arguments of a destination, and
`retryAttemptFromHeaders` counts the attempts of a delivery from the broker's
`x-death` header.  `poisonQueue` is the decision the listeners take from the
two: the queue a failed delivery is published to, if it is to be given up.
-/

namespace MqAdapters

open Python

/-- What `on_error` can be after normalisation. -/
inductive OnError
  | requeue
  | deadLetter
  deriving DecidableEq

/-- `DeadLetteringConfig`.  The only producer is `resolveDeadLetteringConfig`,
which raises `max_retries` to `1`. -/
structure DeadLetteringConfig where
  onError : OnError
  deadLetterQueue : Option String
  maxRetries : Int
  one_le_maxRetries : 1 ≤ maxRetries

def queueArgsKeys : List String := ["queue_arguments", "queue_args", "queue_declare_arguments"]

/-- The first of the three keys that holds a dictionary, or no arguments. -/
def resolveQueueArguments (destination : Dict) : Dict :=
  (queueArgsKeys.findSome? fun k => (destination.get k).asDict).getD []

/-- `str(v).strip().lower()`, and `"requeue"` unless that is `"dead_letter"`.
No character outside ASCII has a lower-case form made of the letters of
`"dead_letter"`, so lowering ASCII letters decides the comparison. -/
def normalizeOnError (v : Value) : OnError :=
  if (strip v.toStr.toList).map Char.toLower = "dead_letter".toList then .deadLetter else .requeue

def resolveDeadLetteringConfig (destination : Dict) : DeadLetteringConfig :=
  let args := resolveQueueArguments destination
  let dlq := args.get "dead_letter_queue"
  let maxRetries := ((args.getD "max_retries" (.int 1)).toInt).getD 1
  { onError := normalizeOnError (args.getD "on_error" (.str "requeue"))
    deadLetterQueue := match dlq with
      | .none => none
      | v => some v.toStr
    maxRetries := if maxRetries < 1 then 1 else maxRetries
    one_le_maxRetries := by split <;> omega }

/-- The counts of the `x-death` entries that are dictionaries and that `int()`
accepts. -/
def deathCounts (entries : List Value) : List Int :=
  entries.filterMap fun entry => entry.asDict.bind fun e => (e.get "count").toInt

/-- `attempt = 1 + sum(x-death[*].count)`, and `1` without a usable header. -/
def retryAttemptFromHeaders (headers : Option Dict) : Int :=
  match headers with
  | none => 1
  | some headers =>
    if headers.isEmpty then 1
    else
      let xDeath := headers.get "x-death"
      if !xDeath.truthy then 1
      else match xDeath with
        | .list _ entries => 1 + max 0 (deathCounts entries).sum
        | _ => 1 + max 0 0

theorem one_le_retryAttemptFromHeaders (headers : Option Dict) :
    1 ≤ retryAttemptFromHeaders headers := by
  unfold retryAttemptFromHeaders
  split
  · exact Int.le_refl 1
  · split
    · exact Int.le_refl 1
    · dsimp only
      split
      · exact Int.le_refl 1
      · split <;> omega

/-- The name of the queue that a delivery at `attempt` is published to because
`cfg.dead_letter_queue and attempt >= int(cfg.max_retries)`. -/
def DeadLetteringConfig.poisonQueue (cfg : DeadLetteringConfig) (attempt : Int) : Option String :=
  cfg.deadLetterQueue.filter fun q => q ≠ "" && cfg.maxRetries ≤ attempt

theorem DeadLetteringConfig.poisonQueue_eq_some {cfg : DeadLetteringConfig} {attempt : Int}
    {q : String} : cfg.poisonQueue attempt = some q ↔
      cfg.deadLetterQueue = some q ∧ q ≠ "" ∧ cfg.maxRetries ≤ attempt := by
  simp [poisonQueue, Option.filter_eq_some_iff]

theorem DeadLetteringConfig.poisonQueue_eq_none {cfg : DeadLetteringConfig} {attempt : Int}
    (h : attempt < cfg.maxRetries) : cfg.poisonQueue attempt = none := by
  rw [Option.eq_none_iff_forall_ne_some]
  exact fun q hq => Int.not_le.mpr h (poisonQueue_eq_some.mp hq).2.2

end MqAdapters
