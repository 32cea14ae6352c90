import MqAdapters.Theory.Monitor

/-!
# Counters that threads share

`Stats` of `stats.py` with its lock, one attribute at a time: `inc` reads a counter and
writes it back, `snapshot` copies the counters one after another, `reset` puts in new ones.
Any number of threads call these, and only the lock keeps their accesses apart.
-/

namespace MqAdapters

open Theory

namespace SharedStats

/-! ## The snapshot -/

/-- The fields of `StatsSnapshot`, in their order. -/
inductive Field
  | published
  | publishFailed
  | received
  | handlerExceptions
  | acked
  | nacked
  | reconnectAttempts
  | connectionsOpened
  | connectionsClosed
  deriving DecidableEq

def Field.all : List Field :=
  [.published, .publishFailed, .received, .handlerExceptions, .acked, .nacked, .reconnectAttempts,
    .connectionsOpened, .connectionsClosed]

def Field.name : Field → String
  | .published => "published"
  | .publishFailed => "publish_failed"
  | .received => "received"
  | .handlerExceptions => "handler_exceptions"
  | .acked => "acked"
  | .nacked => "nacked"
  | .reconnectAttempts => "reconnect_attempts"
  | .connectionsOpened => "connections_opened"
  | .connectionsClosed => "connections_closed"

structure StatsSnapshot where
  published : Int
  publishFailed : Int
  received : Int
  handlerExceptions : Int
  acked : Int
  nacked : Int
  reconnectAttempts : Int
  connectionsOpened : Int
  connectionsClosed : Int
  deriving DecidableEq

namespace StatsSnapshot

/-- `StatsSnapshot()`. -/
def zero : StatsSnapshot := ⟨0, 0, 0, 0, 0, 0, 0, 0, 0⟩

/-- `getattr` of a field. -/
def get (s : StatsSnapshot) : Field → Int
  | .published => s.published
  | .publishFailed => s.publishFailed
  | .received => s.received
  | .handlerExceptions => s.handlerExceptions
  | .acked => s.acked
  | .nacked => s.nacked
  | .reconnectAttempts => s.reconnectAttempts
  | .connectionsOpened => s.connectionsOpened
  | .connectionsClosed => s.connectionsClosed

/-- `setattr` of a field. -/
def set (s : StatsSnapshot) (n : Int) : Field → StatsSnapshot
  | .published => { s with published := n }
  | .publishFailed => { s with publishFailed := n }
  | .received => { s with received := n }
  | .handlerExceptions => { s with handlerExceptions := n }
  | .acked => { s with acked := n }
  | .nacked => { s with nacked := n }
  | .reconnectAttempts => { s with reconnectAttempts := n }
  | .connectionsOpened => { s with connectionsOpened := n }
  | .connectionsClosed => { s with connectionsClosed := n }

/-- `StatsSnapshot(**dict)`: a field that is not in the dict has its default. -/
def ofDict (dict : List (String × Int)) : StatsSnapshot where
  published := (dict.lookup "published").getD 0
  publishFailed := (dict.lookup "publish_failed").getD 0
  received := (dict.lookup "received").getD 0
  handlerExceptions := (dict.lookup "handler_exceptions").getD 0
  acked := (dict.lookup "acked").getD 0
  nacked := (dict.lookup "nacked").getD 0
  reconnectAttempts := (dict.lookup "reconnect_attempts").getD 0
  connectionsOpened := (dict.lookup "connections_opened").getD 0
  connectionsClosed := (dict.lookup "connections_closed").getD 0

@[simp] theorem get_zero (f : Field) : zero.get f = 0 := by
  cases f <;> rfl

@[simp] theorem get_set (s : StatsSnapshot) (n : Int) (f g : Field) :
    (s.set n f).get g = if f = g then n else s.get g := by
  cases f <;> cases g <;> rfl

/-- A snapshot is what its fields are. -/
theorem ofDict_fields (s : StatsSnapshot) :
    ofDict (Field.all.map fun f => (f.name, s.get f)) = s := by
  simp [ofDict, Field.all, Field.name, List.lookup_cons, get]

end StatsSnapshot

/-! ## The operations -/

/-- What an operation raises. -/
inductive Error
  /-- `AttributeError("Unknown stats field: …")` -/
  | unknownField (field : String)
  | typeError
  | valueError
  deriving DecidableEq

/-- What a name stands for on a snapshot. -/
inductive Attribute
  | counter (f : Field)
  /-- anything else there; `int` of it raises -/
  | other (error : Error)

inductive Op
  | inc (field : String) (value : Int)
  | snapshot
  | reset
  deriving DecidableEq

abbrev Answer := Except Error (Option StatsSnapshot)

def counterOf (name : String) : Option Field := Field.all.find? fun f => f.name == name

/-- The attributes of a snapshot; `others` are the names of its class, such as `to_dict`. -/
def attributeOf (others : String → Option Error) (name : String) : Option Attribute :=
  match counterOf name with
  | some f => some (.counter f)
  | none => (others name).map .other

variable (others : String → Option Error)

/-- `inc`, with the lock held. -/
def inc (field : String) (value : Int) : Region StatsSnapshot Answer :=
  -- hasattr
  .access id fun _ =>
    match attributeOf others field with
    | none => .ret (.error (.unknownField field))
    | some (.other error) => .access id fun _ => .ret (.error error)
    | some (.counter f) =>
      .access id fun snapshot =>
        .access (fun s => s.set (snapshot.get f + value) f) fun _ => .ret (.ok none)

/-- `asdict` of the fields that are left, and the snapshot of the dict. -/
def toDict : List Field → List (String × Int) → Region StatsSnapshot Answer
  | [], dict => .ret (.ok (some (.ofDict dict)))
  | f :: fields, dict =>
    .access id fun snapshot => toDict fields (dict ++ [(f.name, snapshot.get f)])

/-- The three operations, with the lock held. -/
def code : Op → Region StatsSnapshot Answer
  | .inc field value => inc others field value
  | .snapshot => toDict Field.all []
  | .reset => .access (fun _ => .zero) fun _ => .ret (.ok none)

/-- `Stats` and its callers. -/
abbrev stats : Machine (Monitor Op StatsSnapshot Answer) (Monitor.Action Op) :=
  Monitor.machine (code others) .zero

/-! ## What they do at once -/

/-- Each operation as one step: a counter is larger by `value`, or all are seen as they are. -/
def apply : Op → StatsSnapshot → StatsSnapshot × Answer
  | .inc field value, s =>
    match attributeOf others field with
    | none => (s, .error (.unknownField field))
    | some (.other error) => (s, .error error)
    | some (.counter f) => (s.set (s.get f + value) f, .ok none)
  | .snapshot, s => (s, .ok (some s))
  | .reset, _ => (.zero, .ok none)

theorem toDict_run (fields : List Field) (dict : List (String × Int)) (s : StatsSnapshot) :
    (toDict fields dict).run s =
      (s, .ok (some (.ofDict (dict ++ fields.map fun f => (f.name, s.get f))))) := by
  induction fields generalizing dict with
  | nil => rw [List.map_nil, List.append_nil]; rfl
  | cons f fields ih =>
    rw [toDict, Region.run, id_eq, ih, List.map_cons, List.append_assoc]
    rfl

/-- **Alone, each does what it says.** -/
theorem code_run (op : Op) (s : StatsSnapshot) : (code others op).run s = apply others op s := by
  cases op with
  | inc field value =>
    simp only [code, inc, Region.run, apply]
    split <;> rfl
  | snapshot => rw [code, toDict_run, List.nil_append, StatsSnapshot.ofDict_fields]; rfl
  | reset => rfl

/-! ## What is counted -/

/-- What an operation adds to a counter. -/
def amount (f : Field) : Op → Int
  | .inc field value => if counterOf field = some f then value else 0
  | _ => 0

variable {others}

theorem get_apply {op : Op} (hop : op ≠ .reset) (s : StatsSnapshot) (f : Field) :
    (apply others op s).1.get f = s.get f + amount f op := by
  cases op with
  | inc field value =>
    simp only [apply, attributeOf, amount]
    cases hcounter : counterOf field with
    | none => cases others field <;> simp
    | some g =>
      simp only [StatsSnapshot.get_set, Option.some.injEq]
      by_cases hg : g = f
      · rw [if_pos hg, if_pos hg, hg]
      · rw [if_neg hg, if_neg hg, Int.add_zero]
  | snapshot => exact (Int.add_zero _).symm
  | reset => exact absurd rfl hop

/-- Nothing else changes a counter. -/
theorem get_replay {ops : List (Nat × Op)} (hops : ∀ o ∈ ops, o.2 ≠ .reset) (s : StatsSnapshot)
    (f : Field) : (Monitor.replay (apply others) s ops).get f =
      s.get f + (ops.map fun o => amount f o.2).sum := by
  induction ops generalizing s with
  | nil => simp [Monitor.replay]
  | cons o ops ih =>
    have hrest : ∀ o ∈ ops, o.2 ≠ .reset := fun p hp => hops p (List.mem_cons_of_mem _ hp)
    have hfirst : (apply others o.2 s).1.get f = s.get f + amount f o.2 :=
      get_apply (hops o List.mem_cons_self) s f
    rw [List.map_cons, List.sum_cons, ← Int.add_assoc, ← hfirst]
    exact ih hrest _

/-! ## Any number of threads -/

variable {c : Monitor Op StatsSnapshot Answer → Monitor.Action Op → Prop}
  {s : Monitor Op StatsSnapshot Answer} {log : List (Monitor.Entry Op Answer)}

/-- **Each call takes effect once.**  However the accesses of the threads interleave, a call
that returned, with an error or not, did in one step between its call and its return what
it does alone. -/
theorem takes_effect_once
    (h : ((stats others).logged Monitor.said).Reach (fun p a => c p.1 a) (s, log)) :
    ((Monitor.takenOps log).map Prod.fst).Nodup ∧
      ∀ p i answer q, log = p ++ .returned i answer :: q →
        ∃ op, Monitor.Took (apply others) .zero p i op answer :=
  Monitor.effect_of_returned (code_run others) h

/-- `int` of a method raises `TypeError`. -/
def methods (name : String) : Option Error :=
  if name = "to_dict" then some .typeError else none

def after (actions : List (Monitor.Action Op)) :
    Monitor Op StatsSnapshot Answer × List (Monitor.Entry Op Answer) :=
  (((stats methods).logged Monitor.said).runIn (fun _ _ => true)
    ((stats methods).logged Monitor.said).init actions).getD
    ((stats methods).logged Monitor.said).init

theorem after_reach {actions : List (Monitor.Action Op)}
    (h : (((stats methods).logged Monitor.said).runIn (fun _ _ => true)
      ((stats methods).logged Monitor.said).init actions).isSome = true) :
    ((stats methods).logged Monitor.said).Reach (fun _ _ => true = true)
      ((after actions).1, (after actions).2) :=
  Machine.path_of_isSome h ((stats methods).logged Monitor.said).init

/-- An increment returns; a snapshot and another increment are called, and the snapshot has the
lock first. -/
def overlapping : List (Monitor.Action Op) :=
  List.flatten
    [[.call (.inc "published" 1), .acquire 0, .access 0, .access 0, .access 0, .release 0, .ret 0,
        .call .snapshot, .call (.inc "acked" 2), .acquire 1],
      List.replicate 9 (.access 1),
      [.release 1, .acquire 2, .access 2, .access 2, .access 2, .ret 1, .release 2],
      [.call (.inc "to_dict" 1), .acquire 3, .access 3, .access 3, .release 3, .ret 3, .ret 2]]

theorem overlapping_runs : (((stats methods).logged Monitor.said).runIn (fun _ _ => true)
    ((stats methods).logged Monitor.said).init overlapping).isSome = true := by
  decide +kernel

theorem takes_effect_once_overlapping :
    (after overlapping).2.length = 12 ∧
      ((Monitor.takenOps (after overlapping).2).map Prod.fst).Nodup ∧
      ∀ p i answer q, (after overlapping).2 = p ++ .returned i answer :: q →
        ∃ op, Monitor.Took (apply methods) .zero p i op answer :=
  ⟨by decide +kernel, takes_effect_once (c := fun _ _ => true = true)
    (after_reach overlapping_runs)⟩

/-- **A snapshot counts whole calls.**  Without a reset, each of its counters is the sum of
what some calls of `inc` add to it: all that returned before `snapshot` was called are
among them, and none that was called after it returned. -/
theorem snapshot_counts
    (h : ((stats others).logged Monitor.said).Reach (fun p a => c p.1 a) (s, log))
    (hreset : Op.reset ∉ Monitor.calledOps log) {a b q : List (Monitor.Entry Op Answer)}
    {snapshot : StatsSnapshot}
    (hlog : log = (a ++ .called .snapshot :: b) ++
      .returned (Monitor.calledOps a).length (.ok (some snapshot)) :: q) :
    ∃ counted : List (Nat × Op), (counted.map Prod.fst).Nodup ∧
      (∀ i answer, .returned i answer ∈ a → i ∈ counted.map Prod.fst) ∧
      (∀ o ∈ counted, (Monitor.calledOps (a ++ .called .snapshot :: b))[o.1]? = some o.2) ∧
      ∀ f, snapshot.get f = (counted.map fun o => amount f o.2).sum := by
  obtain ⟨counted, hnodup, hreturned, hcalled, hanswer⟩ :=
    Monitor.exists_counted (code_run others) h hlog
  have hops : ∀ o ∈ counted, o.2 ≠ .reset := by
    intro o ho hop
    have hmem := List.mem_of_getElem? (hcalled o ho)
    rw [hop] at hmem
    rw [hlog, Monitor.calledOps_append] at hreset
    exact hreset (List.mem_append_left _ hmem)
  refine ⟨counted, hnodup, hreturned, hcalled, fun f => ?_⟩
  have hsnapshot : snapshot = Monitor.replay (apply others) .zero counted := by
    simpa [apply] using hanswer
  rw [hsnapshot, get_replay hops, StatsSnapshot.get_zero, Int.zero_add]

/-- The log up to the call of the snapshot. -/
def asked : List (Monitor.Entry Op Answer) := (after overlapping).2.take 3

theorem snapshot_counts_overlapping :
    ∃ counted : List (Nat × Op), (counted.map Prod.fst).Nodup ∧
      (∀ i answer, .returned i answer ∈ asked → i ∈ counted.map Prod.fst) ∧
      (∀ o ∈ counted, (Monitor.calledOps (asked ++ .called .snapshot ::
        ((after overlapping).2.drop 4).take 3))[o.1]? = some o.2) ∧
      ∀ f, (StatsSnapshot.zero.set 1 .published).get f =
        (counted.map fun o => amount f o.2).sum :=
  snapshot_counts (c := fun _ _ => true = true) (after_reach overlapping_runs)
    (by decide +kernel)
    (show (after overlapping).2 = (asked ++ .called .snapshot ::
      ((after overlapping).2.drop 4).take 3) ++ .returned (Monitor.calledOps asked).length
        (.ok (some (StatsSnapshot.zero.set 1 .published))) :: (after overlapping).2.drop 8 by
      decide +kernel)

end SharedStats

end MqAdapters
