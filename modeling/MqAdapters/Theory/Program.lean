import Mathlib.Algebra.GroupWithZero.Nat
import Mathlib.Algebra.Ring.Int.Defs
import Mathlib.Data.List.Basic
import Mathlib.Tactic.Convert

/-!
# Programs that call their surroundings

A `Program` returns, raises, or calls an operation `o` and goes on with the
answer, one of `Ans o`.  It is the shallow image of a piece of imperative code
with exceptions: `bind` is sequencing, `handle` is `try … except`, `ensure` is
`try … finally`.  What the operations do is not part of the program, so a
statement about every answer is a statement about every failure and every
concurrent change of what the program reads.

`wp R p Q h` is the precondition of `p` under `Rules` `R`: started after the
events `h`, every operation `p` calls has its guard met by the events before
it, every program it starts has its precondition met, and `Q` holds of the
events and the result when `p` ends.  Only the answers that `R.allowed` admits
are looked at.  `wp_bind` and `wp_attempt` compute it for composed programs.

`exec answer p` is what `p` calls and returns when the answers are given, and
`Calls P p` says that it calls only operations in `P` whatever they are.

`Spends n p` says that the operations `p` calls cost at most `n`, and `Worth n p`
that they are worth `n` whichever way it goes; `spends_of_wp` and `worth_of_wp`
compute them with `wp`.
-/

namespace Theory

universe u v w x y z

/-- A program over the operations `Op`, with answers `Ans` and exceptions `ε`. -/
inductive Program (Op : Type u) (Ans : Op → Type v) (ε : Type w) (α : Type x) :
    Type (max u v w x)
  | pure (a : α) : Program Op Ans ε α
  | raise (e : ε) : Program Op Ans ε α
  | call (o : Op) (k : Ans o → Program Op Ans ε α) : Program Op Ans ε α

/-- An operation that was called and what it answered. -/
structure Event (Op : Type u) (Ans : Op → Type v) where
  op : Op
  answer : Ans op

namespace Program

variable {Op : Type u} {Ans : Op → Type v} {ε : Type w} {α : Type x} {β : Type y}

def bind : Program Op Ans ε α → (α → Program Op Ans ε β) → Program Op Ans ε β
  | pure a, f => f a
  | raise e, _ => raise e
  | call o k, f => call o fun r => (k r).bind f

instance : Monad (Program Op Ans ε) where
  pure := pure
  bind := bind

/-- Go on with a value or raise an exception that was caught before. -/
def ofExcept : Except ε α → Program Op Ans ε α
  | .ok a => pure a
  | .error e => raise e

/-- Call `o` and return or raise what `f` reads in the answer. -/
def ask (o : Op) (f : Ans o → Except ε α) : Program Op Ans ε α := call o fun r => ofExcept (f r)

/-- Run `p` and return its result, an exception included. -/
def attempt : Program Op Ans ε α → Program Op Ans ε (Except ε α)
  | pure a => pure (.ok a)
  | raise e => pure (.error e)
  | call o k => call o fun r => (k r).attempt

/-- `try p except e: f e`. -/
def handle (p : Program Op Ans ε α) (f : ε → Program Op Ans ε α) : Program Op Ans ε α :=
  p.attempt.bind fun r =>
    match r with
    | .ok a => pure a
    | .error e => f e

/-- `try p finally q`. -/
def ensure (p : Program Op Ans ε α) (q : Program Op Ans ε Unit) : Program Op Ans ε α :=
  p.attempt.bind fun r => q.bind fun _ => ofExcept r

/-- The program has returned or raised. -/
def done : Program Op Ans ε α → Bool
  | pure _ => true
  | raise _ => true
  | call _ _ => false

@[simp] theorem pure_eq (a : α) : (Pure.pure a : Program Op Ans ε α) = pure a := rfl

@[simp] theorem bind_eq {α β : Type x} (p : Program Op Ans ε α) (f : α → Program Op Ans ε β) :
    p >>= f = p.bind f := rfl

@[simp] theorem bind_pure_left (a : α) (f : α → Program Op Ans ε β) : (pure a).bind f = f a := rfl

@[simp] theorem bind_raise (e : ε) (f : α → Program Op Ans ε β) :
    (raise e : Program Op Ans ε α).bind f = raise e := rfl

@[simp] theorem bind_call (o : Op) (k : Ans o → Program Op Ans ε α) (f : α → Program Op Ans ε β) :
    (call o k).bind f = call o fun r => (k r).bind f := rfl

@[simp] theorem ofExcept_ok (a : α) : (ofExcept (.ok a) : Program Op Ans ε α) = pure a := rfl

@[simp] theorem ofExcept_error (e : ε) :
    (ofExcept (.error e) : Program Op Ans ε α) = raise e := rfl

@[simp] theorem done_pure (a : α) : (pure a : Program Op Ans ε α).done = true := rfl

@[simp] theorem done_ofExcept (x : Except ε α) :
    (ofExcept x : Program Op Ans ε α).done = true := by cases x <;> rfl

/-! ## What a program does under given answers -/

section

variable (answer : (o : Op) → Ans o)

/-- The operations that `p` calls when each `o` is answered `answer o`, and its
result. -/
def exec : Program Op Ans ε α → List (Event Op Ans) × Except ε α
  | pure a => ([], .ok a)
  | raise e => ([], .error e)
  | call o k => (⟨o, answer o⟩ :: (exec (k (answer o))).1, (exec (k (answer o))).2)

@[simp] theorem exec_pure (a : α) :
    (pure a : Program Op Ans ε α).exec answer = ([], .ok a) := rfl

@[simp] theorem exec_raise (e : ε) :
    (raise e : Program Op Ans ε α).exec answer = ([], .error e) := rfl

@[simp] theorem exec_call (o : Op) (k : Ans o → Program Op Ans ε α) :
    (call o k).exec answer =
      (⟨o, answer o⟩ :: ((k (answer o)).exec answer).1, ((k (answer o)).exec answer).2) := rfl

@[simp] theorem exec_ofExcept (x : Except ε α) :
    (ofExcept x : Program Op Ans ε α).exec answer = ([], x) := by cases x <;> rfl

@[simp] theorem exec_ask (o : Op) (f : Ans o → Except ε α) :
    (ask o f).exec answer = ([⟨o, answer o⟩], f (answer o)) := by simp [ask]

/-- Sequencing: what follows calls its operations after those of `p`. -/
theorem exec_bind (f : α → Program Op Ans ε β) :
    ∀ p : Program Op Ans ε α, (p.bind f).exec answer =
      match (p.exec answer).2 with
      | .ok a => ((p.exec answer).1 ++ ((f a).exec answer).1, ((f a).exec answer).2)
      | .error e => ((p.exec answer).1, .error e)
  | pure _ => rfl
  | raise _ => rfl
  | call o k => by
    rw [bind_call, exec_call, exec_call, exec_bind f (k (answer o))]
    dsimp only
    split <;> simp_all

@[simp] theorem exec_attempt :
    ∀ p : Program Op Ans ε α, p.attempt.exec answer = ((p.exec answer).1, .ok (p.exec answer).2)
  | pure _ => rfl
  | raise _ => rfl
  | call o k => by rw [attempt, exec_call, exec_attempt (k (answer o)), exec_call]

theorem exec_handle (p : Program Op Ans ε α) (f : ε → Program Op Ans ε α) :
    (p.handle f).exec answer =
      match (p.exec answer).2 with
      | .ok a => ((p.exec answer).1, .ok a)
      | .error e => ((p.exec answer).1 ++ ((f e).exec answer).1, ((f e).exec answer).2) := by
  rw [handle, exec_bind, exec_attempt]
  dsimp only
  cases (p.exec answer).2 <;> simp

end

/-! ## What a program calls -/

/-- `p` calls only operations in `P`. -/
def Calls (P : Op → Prop) : Program Op Ans ε α → Prop
  | pure _ => True
  | raise _ => True
  | call o k => P o ∧ ∀ r, (k r).Calls P

@[simp] theorem calls_pure (P : Op → Prop) (a : α) :
    (pure a : Program Op Ans ε α).Calls P ↔ True := Iff.rfl

@[simp] theorem calls_ofExcept (P : Op → Prop) (x : Except ε α) :
    (ofExcept x : Program Op Ans ε α).Calls P ↔ True := by cases x <;> exact Iff.rfl

@[simp] theorem calls_ask (P : Op → Prop) (o : Op) (f : Ans o → Except ε α) :
    (ask o f : Program Op Ans ε α).Calls P ↔ P o := by simp [ask, Calls]

theorem calls_bind {P : Op → Prop} {f : α → Program Op Ans ε β} (hf : ∀ a, (f a).Calls P) :
    ∀ {p : Program Op Ans ε α}, p.Calls P → (p.bind f).Calls P
  | pure a, _ => hf a
  | raise _, _ => trivial
  | call _ _, hp => ⟨hp.1, fun r => calls_bind hf (hp.2 r)⟩

theorem calls_ite {P : Op → Prop} {c : Prop} [Decidable c] {p q : Program Op Ans ε α}
    (hp : c → p.Calls P) (hq : ¬ c → q.Calls P) : (if c then p else q).Calls P := by
  split
  · exact hp ‹_›
  · exact hq ‹_›

/-- Whatever the answers, only these are called. -/
theorem mem_exec_of_calls {P : Op → Prop} (answer : (o : Op) → Ans o) :
    ∀ {p : Program Op Ans ε α}, p.Calls P → ∀ e ∈ (p.exec answer).1, P e.op
  | pure _, _, _, he => absurd he List.not_mem_nil
  | raise _, _, _, he => absurd he List.not_mem_nil
  | call o k, hp, e, he => by
    rcases List.mem_cons.mp he with rfl | he
    · exact hp.1
    · exact mem_exec_of_calls answer (hp.2 (answer o)) e he

/-! ## Preconditions -/

variable {τ : Type z}

/-- What a family of programs, named by `τ`, may rely on and has to keep. -/
structure Rules (Op : Type u) (Ans : Op → Type v) (τ : Type z) where
  /-- the answers that are looked at -/
  allowed : Event Op Ans → Prop
  /-- what has to be true of the events so far when an operation is called -/
  guard : List (Event Op Ans) → Op → Prop
  /-- the programs that an event starts -/
  spawn : Event Op Ans → List τ
  /-- what has to be true of the events so far when a program is started -/
  pre : τ → List (Event Op Ans) → Prop

/-- The precondition of a program, see the head of the file. -/
def wp (R : Rules Op Ans τ) : Program Op Ans ε α →
    (List (Event Op Ans) → Except ε α → Prop) → List (Event Op Ans) → Prop
  | pure a, Q, h => Q h (.ok a)
  | raise e, Q, h => Q h (.error e)
  | call o k, Q, h => R.guard h o ∧ ∀ r, R.allowed ⟨o, r⟩ →
      (∀ t ∈ R.spawn ⟨o, r⟩, R.pre t (h ++ [⟨o, r⟩])) ∧ (k r).wp R Q (h ++ [⟨o, r⟩])

variable {R : Rules Op Ans τ}

@[simp] theorem wp_pure (a : α) (Q : List (Event Op Ans) → Except ε α → Prop)
    (h : List (Event Op Ans)) : (pure a).wp R Q h ↔ Q h (.ok a) := Iff.rfl

@[simp] theorem wp_raise (e : ε) (Q : List (Event Op Ans) → Except ε α → Prop)
    (h : List (Event Op Ans)) : (raise e).wp R Q h ↔ Q h (.error e) := Iff.rfl

@[simp] theorem wp_call (o : Op) (k : Ans o → Program Op Ans ε α)
    (Q : List (Event Op Ans) → Except ε α → Prop) (h : List (Event Op Ans)) :
    (call o k).wp R Q h ↔ R.guard h o ∧ ∀ r, R.allowed ⟨o, r⟩ →
      (∀ t ∈ R.spawn ⟨o, r⟩, R.pre t (h ++ [⟨o, r⟩])) ∧ (k r).wp R Q (h ++ [⟨o, r⟩]) := Iff.rfl

theorem wp_mono {Q Q' : List (Event Op Ans) → Except ε α → Prop} (hQ : ∀ h r, Q h r → Q' h r) :
    ∀ (p : Program Op Ans ε α) (h : List (Event Op Ans)), p.wp R Q h → p.wp R Q' h
  | pure _, _, hp => hQ _ _ hp
  | raise _, _, hp => hQ _ _ hp
  | call _ k, _, hp => ⟨hp.1, fun r hr => ⟨(hp.2 r hr).1, wp_mono hQ (k r) _ (hp.2 r hr).2⟩⟩

theorem wp_and {Q Q' : List (Event Op Ans) → Except ε α → Prop} :
    ∀ (p : Program Op Ans ε α) (h : List (Event Op Ans)), p.wp R Q h → p.wp R Q' h →
      p.wp R (fun h r => Q h r ∧ Q' h r) h
  | pure _, _, hp, hp' => ⟨hp, hp'⟩
  | raise _, _, hp, hp' => ⟨hp, hp'⟩
  | call _ k, _, hp, hp' =>
    ⟨hp.1, fun r hr => ⟨(hp.2 r hr).1, wp_and (k r) _ (hp.2 r hr).2 (hp'.2 r hr).2⟩⟩

/-- **Sequencing**: `p` runs first, and what follows starts after its events. -/
@[simp] theorem wp_bind (f : α → Program Op Ans ε β)
    (Q : List (Event Op Ans) → Except ε β → Prop) :
    ∀ (p : Program Op Ans ε α) (h : List (Event Op Ans)), (p.bind f).wp R Q h ↔
      p.wp R (fun h r => match r with
        | .ok a => (f a).wp R Q h
        | .error e => Q h (.error e)) h
  | pure _, _ => Iff.rfl
  | raise _, _ => Iff.rfl
  | call _ k, _ => by simp only [bind_call, wp_call, wp_bind f Q (k _)]

@[simp] theorem wp_attempt (Q : List (Event Op Ans) → Except ε (Except ε α) → Prop) :
    ∀ (p : Program Op Ans ε α) (h : List (Event Op Ans)),
      p.attempt.wp R Q h ↔ p.wp R (fun h r => Q h (.ok r)) h
  | pure _, _ => Iff.rfl
  | raise _, _ => Iff.rfl
  | call _ k, _ => by simp only [attempt, wp_call, wp_attempt Q (k _)]

@[simp] theorem wp_ofExcept (x : Except ε α) (Q : List (Event Op Ans) → Except ε α → Prop)
    (h : List (Event Op Ans)) : (ofExcept x).wp R Q h ↔ Q h x := by
  cases x <;> rfl

@[simp] theorem wp_ask (o : Op) (f : Ans o → Except ε α)
    (Q : List (Event Op Ans) → Except ε α → Prop) (h : List (Event Op Ans)) :
    (ask o f).wp R Q h ↔ R.guard h o ∧ ∀ r, R.allowed ⟨o, r⟩ →
      (∀ t ∈ R.spawn ⟨o, r⟩, R.pre t (h ++ [⟨o, r⟩])) ∧ Q (h ++ [⟨o, r⟩]) (f r) := by
  simp only [ask, wp_call, wp_ofExcept]

@[simp] theorem wp_handle (p : Program Op Ans ε α) (f : ε → Program Op Ans ε α)
    (Q : List (Event Op Ans) → Except ε α → Prop) (h : List (Event Op Ans)) :
    (p.handle f).wp R Q h ↔ p.wp R (fun h r => match r with
      | .ok a => Q h (.ok a)
      | .error e => (f e).wp R Q h) h := by
  rw [handle, wp_bind, wp_attempt]
  constructor <;> refine wp_mono (fun h r hr => ?_) p h <;> cases r <;> exact hr

@[simp] theorem wp_ensure (p : Program Op Ans ε α) (q : Program Op Ans ε Unit)
    (Q : List (Event Op Ans) → Except ε α → Prop) (h : List (Event Op Ans)) :
    (p.ensure q).wp R Q h ↔ p.wp R (fun h r => q.wp R (fun h s => match s with
      | .ok _ => Q h r
      | .error e => Q h (.error e)) h) h := by
  rw [ensure, wp_bind, wp_attempt]
  constructor
  all_goals
    refine wp_mono (fun h r hr => ?_) p h
    simp only [wp_bind] at hr ⊢
    refine wp_mono (fun h s hs => ?_) q h hr
    cases s <;> cases r <;> exact hs

theorem wp_ite {c : Prop} [Decidable c] {p q : Program Op Ans ε α}
    {Q : List (Event Op Ans) → Except ε α → Prop} {h : List (Event Op Ans)} :
    (if c then p else q).wp R Q h ↔ (c → p.wp R Q h) ∧ (¬ c → q.wp R Q h) := by
  split <;> simp_all

/-! ## What a program can spend -/

/-- Rules that ask for nothing. -/
def free (allowed : Event Op Ans → Prop) (spawn : Event Op Ans → List τ) : Rules Op Ans τ where
  allowed := allowed
  guard _ _ := True
  spawn := spawn
  pre _ _ := True

theorem wp_trivial {Q : List (Event Op Ans) → Except ε α → Prop} (hQ : ∀ h r, Q h r)
    (hg : ∀ h o, R.guard h o) (hp : ∀ e, ∀ t ∈ R.spawn e, ∀ h, R.pre t h) :
    ∀ (p : Program Op Ans ε α) (h : List (Event Op Ans)), p.wp R Q h
  | pure _, _ => hQ _ _
  | raise _, _ => hQ _ _
  | call o k, h => ⟨hg h o, fun r _ =>
      ⟨fun t ht => hp _ t ht _, wp_trivial hQ hg hp (k r) (h ++ [⟨o, r⟩])⟩⟩

/-- The cost of some events, where an event also pays the `fund` of every
program it starts. -/
def spent (cost : Event Op Ans → Nat) (spawn : Event Op Ans → List τ) (fund : τ → Nat) :
    List (Event Op Ans) → Nat
  | [] => 0
  | e :: h => cost e + ((spawn e).map fund).sum + spent cost spawn fund h

/-- `p` never spends more than `n`. -/
def Spends (allowed : Event Op Ans → Prop) (cost : Event Op Ans → Nat)
    (spawn : Event Op Ans → List τ) (fund : τ → Nat) : Nat → Program Op Ans ε α → Prop
  | _, pure _ => True
  | _, raise _ => True
  | n, call o k => ∀ r, allowed ⟨o, r⟩ →
      cost ⟨o, r⟩ + ((spawn ⟨o, r⟩).map fund).sum ≤ n ∧
        Spends allowed cost spawn fund (n - (cost ⟨o, r⟩ + ((spawn ⟨o, r⟩).map fund).sum)) (k r)

section

variable {allowed : Event Op Ans → Prop} {cost : Event Op Ans → Nat}
  {spawn : Event Op Ans → List τ} {fund : τ → Nat}

@[simp] theorem spent_nil : spent cost spawn fund [] = 0 := rfl

@[simp] theorem spent_cons (e : Event Op Ans) (h : List (Event Op Ans)) :
    spent cost spawn fund (e :: h) =
      cost e + ((spawn e).map fund).sum + spent cost spawn fund h := rfl

@[simp] theorem spent_append (h h' : List (Event Op Ans)) :
    spent cost spawn fund (h ++ h') = spent cost spawn fund h + spent cost spawn fund h' := by
  induction h with
  | nil => simp
  | cons e h ih => simp only [List.cons_append, spent_cons, ih]; omega

@[simp] theorem free_guard (h : List (Event Op Ans)) (o : Op) :
    (free allowed spawn).guard h o ↔ True := Iff.rfl

@[simp] theorem free_allowed (e : Event Op Ans) : (free allowed spawn).allowed e ↔ allowed e :=
  Iff.rfl

@[simp] theorem free_spawn : (free allowed spawn).spawn = spawn := rfl

@[simp] theorem free_pre (t : τ) (h : List (Event Op Ans)) : (free allowed spawn).pre t h ↔ True :=
  Iff.rfl

/-- **Frame**: what was called before does not matter to rules that ask for
nothing. -/
theorem wp_free_append {Q : List (Event Op Ans) → Except ε α → Prop} :
    ∀ (p : Program Op Ans ε α) (h h' : List (Event Op Ans)),
      p.wp (free allowed spawn) Q (h ++ h') ↔
        p.wp (free allowed spawn) (fun h' r => Q (h ++ h') r) h'
  | pure _, _, _ => Iff.rfl
  | raise _, _, _ => Iff.rfl
  | call o k, h, h' => by
    simp only [wp_call, free_guard, free_pre, List.append_assoc, wp_free_append (k _)]

theorem spent_le_of_wp (hans : ∀ o, ∃ r, allowed ⟨o, r⟩) {n : Nat} :
    ∀ (p : Program Op Ans ε α) (h : List (Event Op Ans)),
      p.wp (free allowed spawn) (fun h _ => spent cost spawn fund h ≤ n) h →
        spent cost spawn fund h ≤ n
  | pure _, _, hp => hp
  | raise _, _, hp => hp
  | call o k, h, hp => by
    obtain ⟨r, hr⟩ := hans o
    have := spent_le_of_wp hans (k r) _ (hp.2 r hr).2
    rw [spent_append] at this
    omega

/-- Spending grows along a run, so the bound need only be checked at the end. -/
theorem spends_of_wp (hans : ∀ o, ∃ r, allowed ⟨o, r⟩) {n : Nat} :
    ∀ (p : Program Op Ans ε α) (h : List (Event Op Ans)),
      p.wp (free allowed spawn) (fun h _ => spent cost spawn fund h ≤ n) h →
        p.Spends allowed cost spawn fund (n - spent cost spawn fund h)
  | pure _, _, _ => trivial
  | raise _, _, _ => trivial
  | call o k, h, hp => fun r hr => by
    have hle := spent_le_of_wp hans (k r) _ (hp.2 r hr).2
    have hrest := spends_of_wp hans (k r) _ (hp.2 r hr).2
    rw [spent_append] at hle hrest
    simp only [spent_cons, spent_nil] at hle hrest
    refine ⟨by omega, ?_⟩
    convert hrest using 1
    omega

end

/-! ## What a program is worth -/

/-- The value of some events, where an event also counts with the `fund` of every
program it starts. -/
def net (value : Event Op Ans → ℤ) (spawn : Event Op Ans → List τ) (fund : τ → ℤ) :
    List (Event Op Ans) → ℤ
  | [] => 0
  | e :: h => value e + ((spawn e).map fund).sum + net value spawn fund h

/-- Whichever way `p` goes, what it calls is worth `n`. -/
def Worth (allowed : Event Op Ans → Prop) (value : Event Op Ans → ℤ)
    (spawn : Event Op Ans → List τ) (fund : τ → ℤ) : ℤ → Program Op Ans ε α → Prop
  | n, pure _ => n = 0
  | n, raise _ => n = 0
  | n, call o k => ∀ r, allowed ⟨o, r⟩ →
      Worth allowed value spawn fund (n - (value ⟨o, r⟩ + ((spawn ⟨o, r⟩).map fund).sum)) (k r)

section

variable {allowed : Event Op Ans → Prop} {value : Event Op Ans → ℤ}
  {spawn : Event Op Ans → List τ} {fund : τ → ℤ}

@[simp] theorem net_nil : net value spawn fund [] = 0 := rfl

@[simp] theorem net_cons (e : Event Op Ans) (h : List (Event Op Ans)) :
    net value spawn fund (e :: h) =
      value e + ((spawn e).map fund).sum + net value spawn fund h := rfl

@[simp] theorem net_append (h h' : List (Event Op Ans)) :
    net value spawn fund (h ++ h') = net value spawn fund h + net value spawn fund h' := by
  induction h with
  | nil => simp
  | cons e h ih => simp only [List.cons_append, net_cons, ih]; omega

/-- A program that has ended is worth nothing. -/
theorem Worth.done {n : ℤ} : ∀ {p : Program Op Ans ε α},
    p.Worth allowed value spawn fund n → p.done = true → n = 0
  | pure _, h, _ => h
  | raise _, h, _ => h
  | call _ _, _, hd => absurd hd Bool.false_ne_true

/-- What is worth the same in every way it can end is worth the rest at each call. -/
theorem worth_of_wp {n : ℤ} :
    ∀ (p : Program Op Ans ε α) (h : List (Event Op Ans)),
      p.wp (free allowed spawn) (fun h _ => net value spawn fund h = n) h →
        p.Worth allowed value spawn fund (n - net value spawn fund h)
  | pure _, _, hp => Int.sub_eq_zero.mpr hp.symm
  | raise _, _, hp => Int.sub_eq_zero.mpr hp.symm
  | call o k, h, hp => fun r hr => by
    have hrest := worth_of_wp (k r) _ (hp.2 r hr).2
    rw [net_append] at hrest
    simp only [net_cons, net_nil] at hrest
    convert hrest using 1
    omega

end

end Program

end Theory
