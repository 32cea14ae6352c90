import MqAdapters.Topology

/-!
# The queue arguments of the async listener

`AsyncListener.start` declares its queue with the first true value under three
keys, and reads its dead-letter configuration from the first dictionary under
them.

* `ResolvesOnce`: the arguments of a declaration are those that the configuration
  is read from, with no arguments and an empty dictionary identified.
* `resolvesOnce_iff`: the destinations for which that holds of every declaration.
-/

namespace MqAdapters

open Python Theory

/-- The entries of a dictionary, and of no arguments. -/
def Arguments.entries : Arguments → Option Dict
  | .none => some []
  | .table entries => some entries
  | .other _ => Option.none

/-- The configuration that is read from the arguments of a declaration. -/
def configOf (entries : Dict) : DeadLetteringConfig :=
  resolveDeadLetteringConfig [("queue_arguments", .dict "" entries)]

/-- The configuration of the listener is read from these arguments. -/
def ResolvesOnce (destination : Dict) (arguments : Arguments) : Prop :=
  arguments.entries = some (resolveQueueArguments destination) ∧
    ∀ entries, arguments = .table entries →
      resolveDeadLetteringConfig destination = configOf entries

namespace AsyncSetup

def argumentsOf : Op → Option Arguments
  | .declareQueue _ _ _ _ arguments => some arguments
  | _ => none

/-- The arguments of the queues that `start` declares when its calls end as given. -/
def declared (self : Config) (answer : (o : Op) → o.Ans) : List Arguments :=
  (((declare self).exec answer).1.map Event.op).filterMap argumentsOf

/-- Every queue is declared with the arguments of the destination. -/
theorem declare_calls (self : Config) : (declare self).Calls fun o =>
    ∀ arguments, argumentsOf o = some arguments →
      arguments = Arguments.ofValue (queueArguments self.settings.destination) := by
  have hqueue : (declareQueue self).Calls fun o => ∀ arguments, argumentsOf o = some arguments →
      arguments = Arguments.ofValue (queueArguments self.settings.destination) := by
    refine Program.calls_ite (fun _ => ?_) (fun _ => ?_)
    all_goals
      rw [Program.calls_ask]
      exact fun _ h => (Option.some.inj h).symm
  refine Program.calls_bind (fun _ => ?_) (by simp [argumentsOf])
  refine Program.calls_ite (fun _ => Program.calls_bind (fun _ => ?_) ?_) (fun _ => ?_)
  on_goal 2 => simp [argumentsOf]
  all_goals
    refine Program.calls_bind (fun _ => ?_) (by simp [argumentsOf])
    refine Program.calls_bind (fun _ => ?_) hqueue
    simp [argumentsOf]

theorem mem_declared {self : Config} {answer : (o : Op) → o.Ans} {arguments : Arguments}
    (h : arguments ∈ declared self answer) :
    arguments = Arguments.ofValue (queueArguments self.settings.destination) := by
  obtain ⟨o, ho, harguments⟩ := List.mem_filterMap.mp h
  obtain ⟨e, he, rfl⟩ := List.mem_map.mp ho
  exact Program.mem_exec_of_calls answer (declare_calls self) e he arguments harguments

/-- When every call succeeds, a queue is declared. -/
theorem declared_succeeds (self : Config) : declared self (fun _ => .ok ()) =
    [Arguments.ofValue (queueArguments self.settings.destination)] := by
  unfold declared declare declareQueue
  by_cases hp : (self.predefinedQueue &&
      (self.settings.destination.get "predefined_queue_name").truthy) = true <;>
    by_cases hq : self.prefetches = true <;>
    simp [hp, hq, Program.exec_bind, List.filterMap_cons, argumentsOf]

end AsyncSetup

/-! ## When the two lookups agree -/

/-- The first true value under the three keys is the first dictionary; without a
true value, the last key holds nothing or a dictionary. -/
def resolvesOnce (destination : Dict) : Prop :=
  argumentsAgree destination ∧
    ((argumentValues destination).find? Value.truthy = none →
      (Arguments.ofValue (destination.get "queue_declare_arguments")).entries.isSome = true)

/-- `v or w` is `w` or the true value `v`. -/
theorem or_eq (v w : Value) : v.or w = if v.truthy then v else w := rfl

/-- The declared value is the first true one, or the last. -/
theorem queueArguments_eq (destination : Dict) : AsyncSetup.queueArguments destination =
    ((argumentValues destination).find? Value.truthy).getD
      (destination.get "queue_declare_arguments") := by
  unfold AsyncSetup.queueArguments argumentValues queueArgsKeys
  by_cases ha : (destination.get "queue_arguments").truthy = true
  · simp [or_eq, ha]
  · by_cases hb : (destination.get "queue_args").truthy = true
    · simp [or_eq, ha, hb]
    · by_cases hc : (destination.get "queue_declare_arguments").truthy = true <;>
        simp [or_eq, ha, hb, hc]

/-- A true value has the entries that are sent. -/
theorem entries_of_truthy {v : Value} (hv : v.truthy = true) :
    (Arguments.ofValue v).entries = (Arguments.ofValue v).sent := by
  cases v with
  | none | dict => rfl
  | str s | int n | list text items | other text n b =>
    simp [Arguments.ofValue, Arguments.entries, Arguments.sent, hv]

theorem entries_of_false {v : Value} (hv : v.truthy = false) :
    (Arguments.ofValue v).entries = some [] ↔ (Arguments.ofValue v).entries.isSome = true := by
  cases v with
  | dict text entries =>
    have hnil : entries = [] := by simpa [Value.truthy] using hv
    simp [Arguments.ofValue, Arguments.entries, hnil]
  | none | str | int | list | other => simp [Arguments.ofValue, Arguments.entries]

theorem entries_eq_iff (destination : Dict) :
    (Arguments.ofValue (AsyncSetup.queueArguments destination)).entries =
      some (resolveQueueArguments destination) ↔ resolvesOnce destination := by
  have hsent := sent_eq_iff destination
  rw [resolvesOnce, ← hsent]
  rcases hv : (argumentValues destination).find? Value.truthy with _ | v
  · -- every dictionary is empty, so nothing is resolved
    have hlast : (destination.get "queue_declare_arguments").truthy = false := by
      have := List.find?_eq_none.mp hv (destination.get "queue_declare_arguments")
        (by simp [argumentValues, queueArgsKeys])
      simpa using this
    have hargs := queueArguments_eq destination
    rw [hv, Option.getD_none] at hargs
    have hnil : some ([] : Dict) = some (resolveQueueArguments destination) := by
      have hfound := sent_queueArguments destination
      rw [hv] at hfound
      exact hfound.symm.trans (hsent.mpr (fun v hv' => by rw [hv] at hv'; cases hv'))
    rw [hargs, ← hnil, entries_of_false hlast, sent_ofValue]
    simp [hlast]
  · have htrue : v.truthy = true := List.find?_some hv
    have hargs := queueArguments_eq destination
    rw [hv, Option.getD_some] at hargs
    rw [hargs, entries_of_truthy htrue]
    simp

/-- The configuration is read from the resolved arguments. -/
theorem configOf_resolveQueueArguments (destination : Dict) :
    configOf (resolveQueueArguments destination) = resolveDeadLetteringConfig destination := by
  have hsame : resolveQueueArguments
      [("queue_arguments", .dict "" (resolveQueueArguments destination))] =
        resolveQueueArguments destination := rfl
  simp only [configOf, resolveDeadLetteringConfig, hsame]

/-- **The declared arguments are those that the dead-letter configuration is read
from exactly when `resolvesOnce`.** -/
theorem resolvesOnce_iff (self : AsyncSetup.Config) :
    (∀ answer, ∀ arguments ∈ AsyncSetup.declared self answer,
      ResolvesOnce self.settings.destination arguments) ↔
    resolvesOnce self.settings.destination := by
  rw [← entries_eq_iff]
  constructor
  · intro h
    refine (h (fun _ => .ok ()) _ ?_).1
    rw [AsyncSetup.declared_succeeds]
    exact List.mem_singleton.mpr rfl
  · intro h answer arguments harguments
    obtain rfl := AsyncSetup.mem_declared harguments
    refine ⟨h, fun entries hentries => ?_⟩
    rw [hentries] at h
    rw [← configOf_resolveQueueArguments, ← Option.some.inj h]

/-- The first key holds an empty dictionary, the second one says what to do with
failures. -/
def mixedAliases : Dict :=
  [("queue_arguments", .dict "" []), ("queue_args", .dict "" [("on_error", .str "dead_letter")])]

/-- The queue is declared with `on_error: dead_letter`, and failures are requeued. -/
theorem dead_letter_ignored :
    let self : AsyncSetup.Config := ⟨⟨⟨mixedAliases, false⟩, -1, none, 10⟩, false⟩
    let entries : Dict := [("on_error", .str "dead_letter")]
    Arguments.table entries ∈ AsyncSetup.declared self (fun _ => .ok ()) ∧
      (configOf entries).onError = .deadLetter ∧
      (resolveDeadLetteringConfig mixedAliases).onError = .requeue ∧
      ¬ ResolvesOnce mixedAliases (.table entries) := by
  intro self entries
  have hconfig : (configOf entries).onError = .deadLetter ∧
      (resolveDeadLetteringConfig mixedAliases).onError = .requeue := by decide
  refine ⟨?_, hconfig.1, hconfig.2, fun h => ?_⟩
  · rw [AsyncSetup.declared_succeeds]
    exact List.mem_singleton.mpr rfl
  · have hsame := congrArg DeadLetteringConfig.onError (h.2 entries rfl)
    rw [hconfig.1, hconfig.2] at hsame
    cases hsame

end MqAdapters
