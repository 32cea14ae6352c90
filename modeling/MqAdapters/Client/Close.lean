import MqAdapters.Client.Model

/-!
# What the client stops

`publisher` puts every pool that it creates into the cache that `close` goes
through; `async_publisher` creates senders that are in no cache, so `aclose`
has nothing to go through.

* `Kept`: the caches of a client hold its pools and none of its senders.
* `Stops`: the closing method has stopped what it owes, once each, and has
  raised exactly what that raised.
* `stops_iff`: when it has.
-/

namespace MqAdapters

namespace Client

variable {σ ε : Type} {self : Config} {s : Client σ} {stop : Owned → StopOutcome ε}

/-! ## What is cached -/

/-- The caches hold every pool once, and no sender. -/
structure Kept (s : Client σ) : Prop where
  pools : s.syncPools.map Prod.snd = List.range s.pools.length
  senders : s.asyncPools = []

theorem kept_initial : Kept (initial : Client σ) := ⟨rfl, rfl⟩

theorem Kept.pool {messageType : String} {kwargs : PoolArgs σ} {n : Nat} {t : Client σ}
    (hk : Kept s) (h : s.pool self messageType kwargs = .ok (n, t)) : Kept t := by
  unfold Client.pool at h
  split at h
  · cases h
    exact hk
  · rcases hp : newPool self messageType kwargs with e | p
    · rw [hp] at h
      cases h
    · rw [hp] at h
      cases h
      refine ⟨?_, hk.senders⟩
      simp [hk.pools, List.range_succ]

theorem Kept.call (hk : Kept s) (c : Call σ) : Kept (s.call self c) := by
  cases c with
  | publisher messageType backend retryPolicy kwargs =>
    simp only [Client.call, publisher]
    split
    · exact hk
    · next hpool =>
      have ht := hk.pool hpool
      split
      · exact ht
      · split <;> exact ht
  | asyncPublisher messageType backend retryPolicy kwargs =>
    simp only [Client.call, asyncPublisher]
    split
    · exact hk
    · split
      · exact hk
      · split
        · exact hk
        · exact ⟨hk.pools, hk.senders⟩

/-- **After any calls** the caches hold every pool once, and no sender. -/
theorem kept_after (calls : List (Call σ)) : Kept (after self calls) := by
  suffices ∀ s : Client σ, Kept s → Kept (calls.foldl (Client.call self) s) from
    this initial kept_initial
  induction calls with
  | nil => exact fun s hs => hs
  | cons c calls ih => exact fun s hs => ih _ (hs.call c)

/-! ## The loop of the closing methods -/

/-- Without a `BaseException`, the loop stops everything and collects what is raised. -/
theorem stopEach_ok (stop : Nat → StopOutcome ε) (l : List Nat) (errors : List ε)
    (h : ∀ n ∈ l, ∀ e, stop n ≠ .baseException e) :
    stopEach stop l errors = (l, .ok (errors ++ l.filterMap fun n => (stop n).error?)) := by
  induction l generalizing errors with
  | nil => simp [stopEach]
  | cons n l ih =>
    have hrest : ∀ errors, stopEach stop l errors = _ :=
      fun errors => ih errors fun m hm => h m (List.mem_cons_of_mem n hm)
    rw [stopEach]
    cases hn : stop n with
    | returned => simp [hrest, hn, StopOutcome.error?]
    | exception e => simp [hrest, hn, StopOutcome.error?]
    | baseException e => exact absurd hn (h n List.mem_cons_self e)

/-- A `BaseException` leaves the loop. -/
theorem stopEach_error (stop : Nat → StopOutcome ε) (l : List Nat) (errors : List ε)
    (h : ∃ n ∈ l, ∃ e, stop n = .baseException e) :
    ∃ e, (stopEach stop l errors).2 = .error e := by
  induction l generalizing errors with
  | nil => obtain ⟨n, hn, -⟩ := h; cases hn
  | cons n l ih =>
    rw [stopEach]
    cases hn : stop n with
    | baseException e => exact ⟨e, rfl⟩
    | returned | exception e =>
      obtain ⟨m, hm, e', he⟩ := h
      rcases List.mem_cons.mp hm with rfl | hm
      · rw [hn] at he
        cases he
      · exact ih _ ⟨m, hm, e', he⟩

/-! ## When the closing methods do their work -/

/-- The pools and the senders that the client has created. -/
def ownPools (s : Client σ) : List Owned := (List.range s.pools.length).map .pool

def ownSenders (s : Client σ) : List Owned := (List.range s.senders.length).map .sender

/-- Everything owed was stopped once, the caches are empty, and the errors of the
calls of `stop`, in their order, are what the caller gets. -/
def Stops (stop : Owned → StopOutcome ε) (owed : List Owned) (caches : List (String × Nat))
    (r : Leaving σ ε) : Prop :=
  (∀ x ∈ owed, r.stopped.count x = 1) ∧ caches = [] ∧
    r.ended = raiseIfErrors (r.stopped.filterMap fun x => (stop x).error?)

/-- The call of `stop` raises something that `except Exception` does not catch. -/
def StopOutcome.isBase : StopOutcome ε → Bool
  | .baseException _ => true
  | _ => false

theorem StopOutcome.isBase_iff {o : StopOutcome ε} :
    o.isBase = true ↔ ∃ e, o = .baseException e := by
  cases o <;> simp [isBase]

/-- `close` stops every pool, in the order in which they were created. -/
theorem close_of_caught (hk : Kept s)
    (h : ∀ n, n < s.pools.length → (stop (.pool n)).isBase = false) :
    s.close stop = ⟨s.ownPools, { s with syncPools := [] },
      raiseIfErrors (s.ownPools.filterMap fun x => (stop x).error?)⟩ := by
  have hloop := stopEach_ok (fun n => stop (.pool n)) (List.range s.pools.length) []
    fun n hn e he => by
      have hbase := h n (List.mem_range.mp hn)
      rw [he] at hbase
      cases hbase
  rw [close, hk.pools, hloop, List.nil_append]
  simp only [ownPools, List.filterMap_map, Function.comp_def]

/-- A `BaseException` of a pool leaves `close`. -/
theorem close_of_base (hk : Kept s) {n : Nat} (hn : n < s.pools.length)
    (h : (stop (.pool n)).isBase = true) : ∃ e, (s.close stop).ended = .raised e := by
  obtain ⟨e, he⟩ := StopOutcome.isBase_iff.mp h
  obtain ⟨e', hloop⟩ := stopEach_error (fun n => stop (.pool n)) (List.range s.pools.length) []
    ⟨n, List.mem_range.mpr hn, e, he⟩
  refine ⟨e', ?_⟩
  rw [close, hk.pools]
  split
  · next hs => rw [hs] at hloop; cases hloop
  · next hs => rw [hs] at hloop; cases hloop; rfl

/-- `aclose` finds nothing to stop. -/
theorem aclose_eq (hk : Kept s) :
    s.aclose stop = ⟨[], { s with asyncPools := [] }, .returned⟩ := by
  rw [aclose, hk.senders]
  rfl

theorem raised_ne_raiseIfErrors (e : ε) (errors : List ε) :
    Closed.raised e ≠ raiseIfErrors errors := by
  unfold raiseIfErrors
  split <;> simp

theorem count_ownPools {n : Nat} (hn : n < s.pools.length) : s.ownPools.count (.pool n) = 1 := by
  refine List.count_eq_one_of_mem ?_ (List.mem_map.mpr ⟨n, List.mem_range.mpr hn, rfl⟩)
  exact List.nodup_range.map fun _ _ h => by cases h; rfl

theorem count_sender (n : Nat) : s.ownPools.count (.sender n) = 0 := by
  refine List.count_eq_zero.mpr fun h => ?_
  obtain ⟨m, -, hm⟩ := List.mem_map.mp h
  cases hm

theorem ownPools_eq_nil : s.ownPools = [] ↔ s.pools = [] := by simp [ownPools]

theorem ownSenders_eq_nil : s.ownSenders = [] ↔ s.senders = [] := by simp [ownSenders]

theorem mem_ownPools {x : Owned} : x ∈ s.ownPools ↔ ∃ n, n < s.pools.length ∧ x = .pool n := by
  simp [ownPools, eq_comm]

/-- `close` stops the pools unless a `BaseException` leaves it. -/
theorem close_stops_pools_iff (stop : Owned → StopOutcome ε) (hk : Kept s) :
    Stops stop s.ownPools (s.close stop).client.syncPools (s.close stop) ↔
      ∀ n, n < s.pools.length → (stop (.pool n)).isBase = false := by
  constructor
  · intro h n hn
    by_contra hbase
    obtain ⟨e, he⟩ := close_of_base hk hn (Bool.not_eq_false _ ▸ hbase)
    exact raised_ne_raiseIfErrors e _ (he.symm.trans h.2.2)
  · intro h
    rw [close_of_caught hk h]
    refine ⟨fun x hx => ?_, rfl, rfl⟩
    obtain ⟨n, hn, rfl⟩ := mem_ownPools.mp hx
    exact count_ownPools hn

/-- **What leaving the client stops.**  `close` stops everything that was created
exactly when no sender was and no `stop` raises a `BaseException`; `aclose` only
when nothing was created.  Of the pools alone, `close` stops all, up to a
`BaseException`; of the senders alone, `aclose` stops none. -/
theorem stops_iff (self : Config) (calls : List (Call σ)) (stop : Owned → StopOutcome ε) :
    let s := after self calls
    let closed := s.close stop
    let aclosed := s.aclose stop
    (Stops stop (s.ownPools ++ s.ownSenders) (closed.client.syncPools ++ closed.client.asyncPools)
        closed ↔
      s.senders = [] ∧ ∀ n, n < s.pools.length → (stop (.pool n)).isBase = false) ∧
    (Stops stop (s.ownPools ++ s.ownSenders)
        (aclosed.client.syncPools ++ aclosed.client.asyncPools) aclosed ↔
      s.senders = [] ∧ s.pools = []) ∧
    (Stops stop s.ownPools closed.client.syncPools closed ↔
      ∀ n, n < s.pools.length → (stop (.pool n)).isBase = false) ∧
    (Stops stop s.ownSenders aclosed.client.asyncPools aclosed ↔ s.senders = []) := by
  intro s closed aclosed
  have hk : Kept s := kept_after calls
  have hpools := close_stops_pools_iff stop hk
  refine ⟨⟨fun h => ?_, fun h => ?_⟩, ⟨fun h => ?_, fun h => ?_⟩, hpools,
    ⟨fun h => ?_, fun h => ?_⟩⟩
  · have hbase := hpools.mp ⟨fun x hx => h.1 x (List.mem_append_left _ hx),
      (List.append_eq_nil_iff.mp h.2.1).1, h.2.2⟩
    refine ⟨ownSenders_eq_nil.mp (List.eq_nil_iff_forall_not_mem.mpr fun x hx => ?_), hbase⟩
    obtain ⟨n, -, rfl⟩ := List.mem_map.mp hx
    have hcount := h.1 _ (List.mem_append_right _ hx)
    rw [show closed = s.close stop from rfl, close_of_caught hk hbase, count_sender] at hcount
    cases hcount
  · obtain ⟨hcount, hcache, hended⟩ := hpools.mpr h.2
    refine ⟨fun x hx => hcount x ?_, List.append_eq_nil_iff.mpr ⟨hcache, ?_⟩, hended⟩
    · rw [ownSenders_eq_nil.mpr h.1, List.append_nil] at hx
      exact hx
    · rw [show closed = s.close stop from rfl, close_of_caught hk h.2]
      exact hk.senders
  · have hnil : s.ownPools ++ s.ownSenders = [] := by
      refine List.eq_nil_iff_forall_not_mem.mpr fun x hx => ?_
      have hcount := h.1 x hx
      rw [show aclosed = s.aclose stop from rfl, aclose_eq hk] at hcount
      cases hcount
    rw [List.append_eq_nil_iff, ownPools_eq_nil, ownSenders_eq_nil] at hnil
    exact hnil.symm
  · have hsync : s.syncPools = [] := by
      have := hk.pools
      rw [h.2] at this
      exact List.map_eq_nil_iff.mp this
    rw [show aclosed = s.aclose stop from rfl, aclose_eq hk, ownPools_eq_nil.mpr h.2,
      ownSenders_eq_nil.mpr h.1]
    exact ⟨(fun x hx => by cases hx), by simp [hsync], rfl⟩
  · refine ownSenders_eq_nil.mp (List.eq_nil_iff_forall_not_mem.mpr fun x hx => ?_)
    have hcount := h.1 x hx
    rw [show aclosed = s.aclose stop from rfl, aclose_eq hk] at hcount
    cases hcount
  · rw [show aclosed = s.aclose stop from rfl, aclose_eq hk, ownSenders_eq_nil.mpr h]
    exact ⟨(fun x hx => by cases hx), rfl, rfl⟩

/-- A client with one message type and everything it needs. -/
def usual : Config where
  connectionParams := none
  messageTypeMap := some [("mt", .dict "" [])]
  connectionFactory := true
  envParams := none
  asyncSupport := true
  aioPika := true

/-- `async_publisher("mt")`, and then `async with client` is left: the sender is not
stopped. -/
theorem aclose_forgets_sender :
    let s : Client Unit := after usual
      [.asyncPublisher "mt" "sender" none ⟨none, none, none, none, none, false⟩]
    let r : Leaving Unit Unit := s.aclose fun _ => .returned
    s.ownSenders = [.sender 0] ∧ r.stopped = [] ∧
      ¬ Stops (fun _ => .returned) s.ownSenders r.client.asyncPools r := by
  refine ⟨rfl, rfl, fun h => ?_⟩
  exact absurd (h.1 (.sender 0) (List.mem_singleton.mpr rfl)) (by decide)

end Client

end MqAdapters
