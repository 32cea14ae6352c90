import Mathlib.Data.List.Basic
import Mathlib.Logic.Function.Basic

/-!
# Caches that are filled on demand

A cache is what is stored under each key.  A request names a key and what would be
made for it, if that can be made; it is made and stored unless there is something under
the key already.

* `requests_apply`: what a sequence of requests leaves under a key is what was there
  before, or else what the first request that could make something made.
* `requests_congr`: requests for other keys do not matter.
-/

namespace Theory

namespace Cache

universe u v

variable {κ : Type u} {α : Type v} [DecidableEq κ]

/-- A request for the key `r.1`. -/
def request (c : κ → Option α) (r : κ × Option α) : κ → Option α :=
  Function.update c r.1 ((c r.1).or r.2)

/-- What the request makes for the key `k`. -/
def made (k : κ) (r : κ × Option α) : Option α := if r.1 = k then r.2 else none

theorem request_apply (c : κ → Option α) (r : κ × Option α) (k : κ) :
    request c r k = (c k).or (made k r) := by
  unfold request made
  by_cases hk : r.1 = k
  · subst hk
    rw [Function.update_self, if_pos rfl]
  · rw [Function.update_of_ne (Ne.symm hk), if_neg hk, Option.or_none]

/-- What is stored stays stored. -/
theorem request_of_some {c : κ → Option α} {k : κ} {v : α} (h : c k = some v)
    (r : κ × Option α) : request c r k = some v := by
  rw [request_apply, h, Option.some_or]

/-- **What a sequence of requests leaves under a key.** -/
theorem requests_apply (c : κ → Option α) (rs : List (κ × Option α)) (k : κ) :
    rs.foldl request c k = (c k).or (rs.findSome? (made k)) := by
  induction rs generalizing c with
  | nil => rw [List.foldl_nil, List.findSome?_nil, Option.or_none]
  | cons r rs ih =>
    rw [List.foldl_cons, ih, request_apply, List.findSome?_cons, Option.or_assoc]
    cases made k r with
    | none => rw [Option.none_or]
    | some v => rw [Option.some_or]

/-- **Requests for other keys do not matter.** -/
theorem requests_congr {rs rs' : List (κ × Option α)} {k : κ}
    (h : rs.filter (·.1 = k) = rs'.filter (·.1 = k)) (c : κ → Option α) :
    rs.foldl request c k = rs'.foldl request c k := by
  have hfilter : ∀ rs : List (κ × Option α),
      rs.findSome? (made k) = (rs.filter (·.1 = k)).findSome? (made k) := by
    intro rs
    induction rs with
    | nil => rfl
    | cons r rs ih =>
      by_cases hk : r.1 = k
      · rw [List.filter_cons_of_pos (by simpa using hk), List.findSome?_cons, List.findSome?_cons,
          ih]
      · rw [List.filter_cons_of_neg (by simpa using hk), List.findSome?_cons, ih]
        simp [made, hk]
  rw [requests_apply, requests_apply, hfilter, h, ← hfilter]

end Cache

end Theory
