import Mathlib.Algebra.Order.BigOperators.Group.List
import MqAdapters.Delivery.Operations

/-!
# The attempt count, as the source loops

`retry_attempt_from_headers` adds the counts up one by one, in a loop with one `try`
inside another.  Here it is with its exceptions.

* `foldlM_countEntry`: the loop adds what `int` accepts, whatever comes in between.
* `retryAttemptFromHeaders_eq`: so it returns the closed form that the listeners are
  modelled with.
* `attempt_robust`: what the count depends on.
-/

namespace MqAdapters

open Python

namespace AttemptCount

/-- `try: x  except Exception: y`. -/
def exceptException {α : Type} (x y : Except Raised α) : Except Raised α :=
  match x with
  | .error .exception => y
  | r => r

def int (v : Value) : Except Raised Int :=
  match v.toInt with
  | some n => .ok n
  | none => .error .exception

/-- The loop body. -/
def countEntry (total : Int) (entry : Value) : Except Raised Int :=
  match entry.asDict with
  | none => .ok total
  | some entry => exceptException ((int (entry.get "count")).map (total + ·)) (.ok total)

/-- The outer `try`, with the `return` of its `except` as `none`. -/
def countDeaths (xDeath : Value) : Except Raised (Option Int) :=
  exceptException
    (match xDeath with
      | .list _ entries => (entries.foldlM countEntry 0).map some
      | _ => .ok (some 0))
    (.ok none)

def retryAttemptFromHeaders (headers : Option Dict) : Except Raised Int :=
  match headers with
  | none => .ok 1
  | some headers =>
    if headers.isEmpty then .ok 1
    else
      let xDeath := headers.get "x-death"
      if !xDeath.truthy then .ok 1
      else (countDeaths xDeath).map fun
        | some total => 1 + max 0 total
        | none => 1

/-! ## The loop -/

/-- The count of an entry that `int` accepts. -/
def count? (entry : Value) : Option Int := entry.asDict.bind fun e => (e.get "count").toInt

theorem deathCounts_eq (entries : List Value) : deathCounts entries = entries.filterMap count? :=
  rfl

/-- A malformed entry leaves the partial sum as it is. -/
theorem countEntry_eq (total : Int) (entry : Value) :
    countEntry total entry = .ok (total + (count? entry).getD 0) := by
  unfold countEntry count?
  cases entry.asDict with
  | none => simp
  | some e =>
    cases h : (e.get "count").toInt with
    | none => simp [int, h, exceptException, Except.map]
    | some n => simp [int, h, exceptException, Except.map]

/-- **The loop never raises, and adds up what `int` accepts.** -/
theorem foldlM_countEntry (entries : List Value) (total : Int) :
    entries.foldlM countEntry total = .ok (total + (deathCounts entries).sum) := by
  induction entries generalizing total with
  | nil => simp [deathCounts]; rfl
  | cons entry entries ih =>
    rw [List.foldlM_cons, countEntry_eq]
    refine (ih _).trans ?_
    rw [deathCounts_eq, deathCounts_eq, List.filterMap_cons]
    cases count? entry with
    | none => simp
    | some n => simp [add_assoc]

/-- **The source's loop returns the closed form.** -/
theorem retryAttemptFromHeaders_eq (headers : Option Dict) :
    retryAttemptFromHeaders headers = .ok (MqAdapters.retryAttemptFromHeaders headers) := by
  cases headers with
  | none => rfl
  | some headers =>
    unfold retryAttemptFromHeaders MqAdapters.retryAttemptFromHeaders
    dsimp only
    split
    · rfl
    · split
      · rfl
      · cases headers.get "x-death" with
        | list text entries =>
          simp [countDeaths, foldlM_countEntry, exceptException, Except.map]
        | _ => rfl

/-! ## What the count depends on -/

/-- The entries of `x-death`, if that is a list. -/
def deaths (headers : Option Dict) : List Value :=
  match headers with
  | none => []
  | some headers =>
    match headers.get "x-death" with
    | .list _ entries => entries
    | _ => []

theorem retryAttemptFromHeaders_deaths (headers : Option Dict) :
    MqAdapters.retryAttemptFromHeaders headers = 1 + max 0 (deathCounts (deaths headers)).sum := by
  cases headers with
  | none => rfl
  | some headers =>
    cases headers with
    | nil => rfl
    | cons entry headers =>
      unfold MqAdapters.retryAttemptFromHeaders deaths
      dsimp only [List.isEmpty_cons, Bool.false_eq_true, if_false]
      cases Dict.get (entry :: headers) "x-death" with
      | list text entries => cases entries <;> simp [Value.truthy, deathCounts]
      | _ => simp [deathCounts]

theorem sum_deathCounts_perm {entries entries' : List Value} (h : entries.Perm entries') :
    (deathCounts entries).sum = (deathCounts entries').sum :=
  (h.filterMap count?).sum_eq

theorem deathCounts_append (entries more : List Value) :
    deathCounts (entries ++ more) = deathCounts entries ++ deathCounts more :=
  List.filterMap_append

theorem deathCounts_malformed {entries : List Value} (h : ∀ e ∈ entries, count? e = none) :
    deathCounts entries = [] :=
  List.filterMap_eq_nil_iff.mpr h

/-- A delivery that is given up is given up at every later attempt. -/
theorem poisonQueue_mono {cfg : DeadLetteringConfig} {m n : Int} (h : m ≤ n) {q : String}
    (hq : cfg.poisonQueue m = some q) : cfg.poisonQueue n = some q := by
  rw [DeadLetteringConfig.poisonQueue_eq_some] at hq ⊢
  exact ⟨hq.1, hq.2.1, Int.le_trans hq.2.2 h⟩

/-- **The attempt count is robust**: whatever the headers hold, it is the sum of the
counts that `int` accepts, from one up; neither the order of the entries nor malformed
ones among them matter, and entries whose counts are not negative never lower it, so a
delivery that is poison stays poison. -/
theorem attempt_robust :
    (∀ headers, ∃ n, retryAttemptFromHeaders headers = .ok n ∧ 1 ≤ n ∧
      n = 1 + max 0 ((deaths headers).filterMap count?).sum) ∧
    (∀ headers headers' malformed, (∀ e ∈ malformed, count? e = none) →
      (malformed ++ deaths headers).Perm (deaths headers') →
        retryAttemptFromHeaders headers' = retryAttemptFromHeaders headers) ∧
    (∀ headers headers' more, (∀ n ∈ more.filterMap count?, 0 ≤ n) →
      (deaths headers ++ more).Perm (deaths headers') →
        ∀ n n', retryAttemptFromHeaders headers = .ok n →
          retryAttemptFromHeaders headers' = .ok n' →
          n ≤ n' ∧ ∀ (cfg : DeadLetteringConfig) (q : String),
            cfg.poisonQueue n = some q → cfg.poisonQueue n' = some q) := by
  refine ⟨fun headers => ?_, fun headers headers' malformed hbad hperm => ?_,
    fun headers headers' more hmore hperm n n' hn hn' => ?_⟩
  · exact ⟨_, retryAttemptFromHeaders_eq headers, one_le_retryAttemptFromHeaders headers,
      retryAttemptFromHeaders_deaths headers⟩
  · have hsum := sum_deathCounts_perm hperm
    rw [deathCounts_append, deathCounts_malformed hbad, List.nil_append] at hsum
    rw [retryAttemptFromHeaders_eq, retryAttemptFromHeaders_eq, retryAttemptFromHeaders_deaths,
      retryAttemptFromHeaders_deaths, hsum]
  · rw [retryAttemptFromHeaders_eq, retryAttemptFromHeaders_deaths, Except.ok.injEq] at hn hn'
    have hsum := sum_deathCounts_perm hperm
    rw [deathCounts_append, List.sum_append] at hsum
    have hnonneg : 0 ≤ (deathCounts more).sum := List.sum_nonneg hmore
    have hle : n ≤ n' := by omega
    exact ⟨hle, fun cfg q hq => poisonQueue_mono hle hq⟩

def headersWith (entries : List Value) : Option Dict := some [("x-death", .list "" entries)]

def entryOf (count : Value) : Value := .dict "" [("count", count)]

/-- Two deaths, one with its count as text, between entries without a count; then a
third death. -/
theorem attempt_robust_mixed :
    retryAttemptFromHeaders
        (headersWith [.none, entryOf (.int 1), entryOf .none, entryOf (.str "2")]) =
      retryAttemptFromHeaders (headersWith [entryOf (.str "2"), entryOf (.int 1)]) ∧
    ∃ n n', retryAttemptFromHeaders (headersWith [entryOf (.str "2"), entryOf (.int 1)]) = .ok n ∧
      retryAttemptFromHeaders
        (headersWith [entryOf (.str "2"), entryOf (.int 1), entryOf (.int 3)]) = .ok n' ∧
      n ≤ n' := by
  obtain ⟨hall, hsame, hmono⟩ := attempt_robust
  obtain ⟨n, hn, -, -⟩ := hall (headersWith [entryOf (.str "2"), entryOf (.int 1)])
  obtain ⟨n', hn', -, -⟩ :=
    hall (headersWith [entryOf (.str "2"), entryOf (.int 1), entryOf (.int 3)])
  refine ⟨hsame _ _ [.none, entryOf .none] ?_ ?_, n, n', hn, hn',
    (hmono _ _ [entryOf (.int 3)] ?_ ?_ n n' hn hn').1⟩
  · intro e he
    rcases List.mem_pair.mp he with rfl | rfl
    · rfl
    · rfl
  · exact (@List.perm_append_comm _ [entryOf .none, entryOf (.str "2")] [entryOf (.int 1)]).cons _
  · intro n hn
    obtain rfl : n = 3 := List.mem_singleton.mp hn
    decide
  · exact List.Perm.refl _

end AttemptCount

end MqAdapters
