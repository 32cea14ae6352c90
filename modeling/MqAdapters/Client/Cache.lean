import MqAdapters.Client.Close
import MqAdapters.Theory.Cache

/-!
# Which pool backs a publisher

`publisher` keeps one pool for each message type, the first that it could make.  So the
pools of a client are a cache by message type, whatever else the calls ask for.

* `pooled_call`: a call is a request of `Theory.Cache`; `pooled_after`: the pool of a
  message type is what the first call for it that could make one made.
* `Fits`: the pool is what the arguments of a call ask for.
* `publishers_share`: which pool backs a publisher, and what it does not depend on.
-/

namespace MqAdapters

open Python Theory

namespace Client

variable {σ : Type} {self : Config} {s t : Client σ} {messageType backend : String}
  {retryPolicy : Option RetryPolicy} {kwargs : PoolArgs σ}

/-! ## A call of `publisher` -/

/-- The number of the pool. -/
def SyncPublisher.backing : SyncPublisher → Nat
  | .pool n => n
  | .lightweightSender n => n

/-- A backend that `publisher` knows. -/
def known (backend : String) : Bool := backend = "pool" || backend = "lightweight_sender"

/-- What `publisher` does with its pool. -/
def publish (backend : String) (n : Nat) : Except PyError SyncPublisher :=
  if backend = "pool" then .ok (.pool n)
  else if backend = "lightweight_sender" then .ok (.lightweightSender n)
  else .error (.valueError ("Unknown sync publisher backend: '" ++ backend ++ "'"))

theorem publish_ok {n : Nat} {pub : SyncPublisher} (h : publish backend n = .ok pub) :
    known backend = true ∧ pub.backing = n := by
  unfold publish at h
  unfold known
  split at h
  · next hb =>
    obtain rfl := Except.ok.inj h
    exact ⟨by simp [hb], rfl⟩
  · split at h
    · next hb =>
      obtain rfl := Except.ok.inj h
      exact ⟨by simp [hb], rfl⟩
    · cases h

theorem publish_error {n : Nat} {e : PyError} (h : publish backend n = .error e) (m : Nat) :
    known backend = false ∧ publish backend m = .error e := by
  unfold publish at h ⊢
  unfold known
  split at h
  · cases h
  · next hpool =>
    split at h
    · cases h
    · next hsender => exact ⟨by simp [hpool, hsender], by rw [if_neg hpool, if_neg hsender, h]⟩

/-- The pool that a call of `publisher` makes, if it has to. -/
def madeBy (self : Config) (messageType : String) (retryPolicy : Option RetryPolicy)
    (kwargs : PoolArgs σ) : Except PyError (PublisherPool σ) :=
  newPool self messageType { kwargs with
    reconnectRetryPolicy := setdefault retryPolicy kwargs.reconnectRetryPolicy }

def withPool (s : Client σ) (messageType : String) (p : PublisherPool σ) : Client σ :=
  { s with
    syncPools := s.syncPools ++ [(messageType, s.pools.length)]
    pools := s.pools ++ [p] }

/-- **What a call of `publisher` does**: it finds its pool, fails to make one, or makes
it. -/
theorem publisher_cases (self : Config) (s : Client σ) (messageType backend : String)
    (retryPolicy : Option RetryPolicy) (kwargs : PoolArgs σ) :
    let r := s.publisher self messageType backend retryPolicy kwargs
    (∃ n, s.syncPools.lookup messageType = some n ∧ r = (publish backend n, s)) ∨
    (s.syncPools.lookup messageType = none ∧
      ((∃ e, madeBy self messageType retryPolicy kwargs = .error e ∧ r = (.error e, s)) ∨
        ∃ p, madeBy self messageType retryPolicy kwargs = .ok p ∧
          r = (publish backend s.pools.length, s.withPool messageType p))) := by
  intro r
  have hpublish : ∀ n t, (if backend = "pool" then
        (.ok (.pool n), t)
      else if backend = "lightweight_sender" then (.ok (.lightweightSender n), t)
      else (.error (.valueError ("Unknown sync publisher backend: '" ++ backend ++ "'")), t) :
        Except PyError SyncPublisher × Client σ) = (publish backend n, t) := by
    intro n t
    unfold publish
    split
    · rfl
    · split <;> rfl
  cases hl : s.syncPools.lookup messageType with
  | some n =>
    refine .inl ⟨n, rfl, ?_⟩
    simp only [r, publisher, pool, hl]
    exact hpublish n s
  | none =>
    refine .inr ⟨rfl, ?_⟩
    cases hmade : madeBy self messageType retryPolicy kwargs with
    | error e =>
      refine .inl ⟨e, rfl, ?_⟩
      unfold madeBy at hmade
      simp only [r, publisher, pool, hl, hmade, Except.map]
    | ok p =>
      refine .inr ⟨p, rfl, ?_⟩
      unfold madeBy at hmade
      simp only [r, publisher, pool, hl, hmade, Except.map]
      exact hpublish s.pools.length _

/-! ## The cache -/

def pooled (s : Client σ) (messageType : String) : Option (PublisherPool σ) :=
  (s.syncPools.lookup messageType).bind (s.pools[·]?)

/-- What a call asks the cache for. -/
def requested (self : Config) : Call σ → Option (String × Option (PublisherPool σ))
  | .publisher messageType _ retryPolicy kwargs =>
    some (messageType, (madeBy self messageType retryPolicy kwargs).toOption)
  | .asyncPublisher _ _ _ _ => none

theorem Kept.lt {n : Nat} (hk : Kept s) (h : s.syncPools.lookup messageType = some n) :
    n < s.pools.length := by
  have hmem : n ∈ s.syncPools.map Prod.snd := by
    obtain ⟨l, r, hlr, -⟩ := List.lookup_eq_some_iff.mp h
    simp [hlr]
  rw [hk.pools] at hmem
  exact List.mem_range.mp hmem

theorem Kept.pooled_eq_none (hk : Kept s) :
    s.pooled messageType = none ↔ s.syncPools.lookup messageType = none := by
  unfold pooled
  cases hl : s.syncPools.lookup messageType with
  | none => simp
  | some n => simp [hk.lt hl]

theorem pooled_withPool (hk : Kept s) (hl : s.syncPools.lookup messageType = none)
    (p : PublisherPool σ) :
    (s.withPool messageType p).pooled = Cache.request s.pooled (messageType, some p) := by
  funext k
  rw [Cache.request_apply]
  unfold pooled withPool Cache.made
  by_cases hk' : messageType = k
  · subst hk'
    rw [List.lookup_append, hl, if_pos rfl]
    simp
  · have hne : (k == messageType) = false := by simpa using Ne.symm hk'
    rw [List.lookup_append, List.lookup_cons, hne, List.lookup_nil, Option.or_none, if_neg hk',
      Option.or_none]
    cases hlk : s.syncPools.lookup k with
    | none => rfl
    | some n => exact List.getElem?_append_left (hk.lt hlk)

/-- **A call is a request to the cache.** -/
theorem pooled_call (hk : Kept s) (c : Call σ) :
    (s.call self c).pooled = ((requested self c).toList).foldl Cache.request s.pooled := by
  cases c with
  | asyncPublisher messageType backend retryPolicy kwargs =>
    simp only [Client.call, asyncPublisher, requested, Option.toList_none, List.foldl_nil]
    split
    · rfl
    · split
      · rfl
      · split <;> rfl
  | publisher messageType backend retryPolicy kwargs =>
    simp only [Client.call, requested, Option.toList_some, List.foldl_cons, List.foldl_nil]
    obtain ⟨n, hl, hr⟩ | ⟨hl, ⟨e, hmade, hr⟩ | ⟨p, hmade, hr⟩⟩ :=
      publisher_cases self s messageType backend retryPolicy kwargs
    · rw [hr]
      obtain ⟨p, hp⟩ : ∃ p, s.pooled messageType = some p := by
        cases hp : s.pooled messageType with
        | some p => exact ⟨p, rfl⟩
        | none => rw [hk.pooled_eq_none, hl] at hp; cases hp
      rw [Cache.request, hp, Option.some_or, ← hp, Function.update_eq_self]
    · rw [hr, hmade]
      simp [Cache.request, Except.toOption, Function.update_eq_self]
    · rw [hr, hmade, pooled_withPool hk hl]
      rfl

theorem after_snoc (calls : List (Call σ)) (c : Call σ) :
    after self (calls ++ [c]) = (after self calls).call self c := by
  rw [after, List.foldl_append]
  rfl

/-- **The pool of a message type** is what the first call for it that could make one
made. -/
theorem pooled_after (calls : List (Call σ)) :
    (after self calls).pooled = (calls.filterMap (requested self)).foldl Cache.request
      fun _ => none := by
  induction calls using List.reverseRecOn with
  | nil => rfl
  | append_singleton calls c ih =>
    rw [after_snoc, pooled_call (kept_after calls), ih, List.filterMap_append, List.foldl_append]
    cases h : requested self c <;> simp [h]

/-! ## What the pool is -/

/-- The pool is what the arguments of a call ask for. -/
structure Fits (p : PublisherPool σ) (retryPolicy : Option RetryPolicy) (kwargs : PoolArgs σ) :
    Prop where
  confirmDelivery : p.confirmDelivery = kwargs.confirmDelivery.getD false
  channels : ∃ n, (kwargs.numWorkers.getD (.int 4)).toInt = some n ∧ p.numWorkers = max 1 n
  serializer : p.serializer = kwargs.serializer.getD none
  retryPolicy : p.reconnectRetryPolicy = (match kwargs.reconnectRetryPolicy with
    | some given => given
    | none => retryPolicy).getD loopRetryPolicy

/-- A sequence that returns has passed its first call. -/
theorem bind_ok {ε α β : Type} {x : Except ε α} {f : α → Except ε β} {b : β}
    (h : x >>= f = .ok b) : ∃ a, x = .ok a ∧ f a = .ok b := by
  cases x with
  | error e => cases h
  | ok a => exact ⟨a, rfl, h⟩

theorem newPool_fits {p : PublisherPool σ} (h : newPool self messageType kwargs = .ok p) :
    p.messageType = messageType ∧ Fits p none kwargs := by
  unfold newPool at h
  dsimp only at h
  split at h
  · cases h
  · obtain ⟨value, -, h⟩ := bind_ok h
    obtain ⟨-, -, h⟩ := bind_ok h
    obtain ⟨workers, hworkers, h⟩ := bind_ok h
    cases hdict : value.asDict with
    | none =>
      rw [hdict] at h
      cases h
    | some destination =>
      rw [hdict] at h
      obtain ⟨maxsize, -, h⟩ := bind_ok h
      cases h
      refine ⟨rfl, rfl, ⟨workers, ?_, rfl⟩, rfl, ?_⟩
      · unfold Config.int at hworkers
        split at hworkers
        · next hn => rw [hn, Except.ok.inj hworkers]
        · cases hworkers
      · cases kwargs.reconnectRetryPolicy <;> rfl

theorem madeBy_fits {p : PublisherPool σ} (h : madeBy self messageType retryPolicy kwargs = .ok p) :
    p.messageType = messageType ∧ Fits p retryPolicy kwargs := by
  obtain ⟨htype, hfits⟩ := newPool_fits h
  refine ⟨htype, hfits.confirmDelivery, hfits.channels, hfits.serializer, ?_⟩
  rw [hfits.retryPolicy]
  cases retryPolicy with
  | none => rfl
  | some policy => cases kwargs.reconnectRetryPolicy <;> rfl

/-! ## Which pool backs a publisher -/

/-- The publisher that is returned is backed by the pool of its message type. -/
theorem lookup_of_ok {pub : SyncPublisher}
    (h : (s.publisher self messageType backend retryPolicy kwargs).1 = .ok pub) :
    (s.publisher self messageType backend retryPolicy kwargs).2.syncPools.lookup messageType =
      some pub.backing := by
  obtain ⟨n, hl, hr⟩ | ⟨hl, ⟨e, -, hr⟩ | ⟨p, -, hr⟩⟩ :=
    publisher_cases self s messageType backend retryPolicy kwargs
  · rw [hr] at h ⊢
    rw [(publish_ok h).2]
    exact hl
  · rw [hr] at h
    cases h
  · rw [hr] at h ⊢
    rw [(publish_ok h).2]
    simp [withPool, List.lookup_append, hl]

theorem pools_of_lookup {n : Nat} (h : s.syncPools.lookup messageType = some n) :
    s.pools[n]? = s.pooled messageType := by
  rw [pooled, h, Option.bind_some]

/-- The number of a message type stays. -/
theorem lookup_call {n : Nat} (h : s.syncPools.lookup messageType = some n) (c : Call σ) :
    (s.call self c).syncPools.lookup messageType = some n := by
  cases c with
  | asyncPublisher type backend retryPolicy kwargs =>
    simp only [Client.call, asyncPublisher]
    split
    · exact h
    · split
      · exact h
      · split <;> exact h
  | publisher type backend retryPolicy kwargs =>
    obtain ⟨n, -, hr⟩ | ⟨-, ⟨e, -, hr⟩ | ⟨p, -, hr⟩⟩ :=
      publisher_cases self s type backend retryPolicy kwargs
    · simp only [Client.call, hr, h]
    · simp only [Client.call, hr, h]
    · simp only [Client.call, hr, withPool, List.lookup_append, h, Option.some_or]

theorem lookup_calls {n : Nat} (h : s.syncPools.lookup messageType = some n)
    (calls : List (Call σ)) :
    (calls.foldl (Client.call self) s).syncPools.lookup messageType = some n := by
  induction calls generalizing s with
  | nil => exact h
  | cons c calls ih => exact ih (lookup_call h c)

theorem pooled_calls {p : PublisherPool σ} (hk : Kept s) (h : s.pooled messageType = some p)
    (calls : List (Call σ)) :
    (calls.foldl (Client.call self) s).pooled messageType = some p := by
  induction calls generalizing s with
  | nil => exact h
  | cons c calls ih =>
    refine ih (hk.call c) ?_
    rw [pooled_call hk]
    cases requested self c with
    | none => exact h
    | some r => exact Cache.request_of_some h r

/-- A pool was made by a call for its message type. -/
theorem exists_call {calls : List (Call σ)} {p : PublisherPool σ}
    (h : (after self calls).pooled messageType = some p) :
    ∃ backend retryPolicy kwargs, .publisher messageType backend retryPolicy kwargs ∈ calls ∧
      madeBy self messageType retryPolicy kwargs = .ok p := by
  rw [pooled_after, Cache.requests_apply, Option.none_or] at h
  obtain ⟨r, hr, hmade⟩ := List.exists_of_findSome?_eq_some h
  obtain ⟨c, hc, hreq⟩ := List.mem_filterMap.mp hr
  cases c with
  | asyncPublisher => cases hreq
  | publisher type backend retryPolicy kwargs =>
    obtain rfl := Option.some.inj hreq
    unfold Cache.made at hmade
    split at hmade
    · next htype =>
      obtain rfl : type = messageType := htype
      refine ⟨backend, retryPolicy, kwargs, hc, ?_⟩
      cases hm : madeBy self type retryPolicy kwargs with
      | error e => rw [hm] at hmade; cases hmade
      | ok q => rw [hm] at hmade; exact congrArg _ (Option.some.inj hmade)
    · cases hmade

/-- Calls that raise although their backend is known leave no pool. -/
theorem pooled_eq_none_of_raises {calls : List (Call σ)}
    (h : ∀ pre backend retryPolicy kwargs post,
      calls = pre ++ .publisher messageType backend retryPolicy kwargs :: post →
        known backend = true ∧ ∃ e, ((after self pre).publisher self messageType backend retryPolicy
          kwargs).1 = .error e) :
    (after self calls).pooled messageType = none := by
  by_contra hsome
  obtain ⟨p, hp⟩ := Option.ne_none_iff_exists'.mp hsome
  obtain ⟨backend, retryPolicy, kwargs, hmem, hmade⟩ := exists_call hp
  obtain ⟨pre, post, hcalls⟩ := List.append_of_mem hmem
  obtain ⟨hknown, e, he⟩ := h pre backend retryPolicy kwargs post hcalls
  obtain ⟨n, -, hr⟩ | ⟨-, ⟨e', hfail, -⟩ | ⟨q, -, hr⟩⟩ :=
    publisher_cases self (after self pre) messageType backend retryPolicy kwargs
  · rw [hr] at he
    exact absurd hknown (by simp [(publish_error he 0).1])
  · rw [hmade] at hfail
    cases hfail
  · rw [hr] at he
    exact absurd hknown (by simp [(publish_error he 0).1])

/-- The call is one of `publisher` for this message type. -/
def isFor (messageType : String) : Call σ → Bool
  | .publisher type _ _ _ => type = messageType
  | .asyncPublisher _ _ _ _ => false

def SyncPublisher.isPool : SyncPublisher → Bool
  | .pool _ => true
  | .lightweightSender _ => false

/-- What a call of `publisher` returns, with the pool itself for its number. -/
def answer (r : Except PyError SyncPublisher × Client σ) :
    Except PyError (Bool × Option (PublisherPool σ)) :=
  r.1.map fun pub => (pub.isPool, r.2.pools[pub.backing]?)

/-- The pool that backs a publisher, by what is in the cache. -/
theorem answer_publisher (hk : Kept s) (messageType backend : String)
    (retryPolicy : Option RetryPolicy) (kwargs : PoolArgs σ) :
    answer (s.publisher self messageType backend retryPolicy kwargs) =
      match s.pooled messageType with
      | some p => (publish backend 0).map fun pub => (pub.isPool, some p)
      | none => match madeBy self messageType retryPolicy kwargs with
        | .error e => .error e
        | .ok p => (publish backend 0).map fun pub => (pub.isPool, some p) := by
  have hpublish : ∀ n (t : Client σ) p, t.pools[n]? = some p →
      answer (publish backend n, t) = (publish backend 0).map fun pub => (pub.isPool, some p) := by
    intro n t p hp
    unfold answer publish
    dsimp only
    split
    · simp [Except.map, SyncPublisher.isPool, SyncPublisher.backing, hp]
    · split
      · simp [Except.map, SyncPublisher.isPool, SyncPublisher.backing, hp]
      · rfl
  obtain ⟨n, hl, hr⟩ | ⟨hl, hrest⟩ :=
    publisher_cases self s messageType backend retryPolicy kwargs
  · have hp := pools_of_lookup hl
    rw [List.getElem?_eq_getElem (hk.lt hl)] at hp
    rw [hr, ← hp]
    exact hpublish n s _ (List.getElem?_eq_getElem (hk.lt hl))
  · rw [hk.pooled_eq_none.mpr hl]
    obtain ⟨e, hmade, hr⟩ | ⟨p, hmade, hr⟩ := hrest
    · rw [hr, hmade]
      rfl
    · rw [hr, hmade]
      exact hpublish _ _ _ (by simp [withPool])

/-- Calls for other message types leave the pool of this one alone. -/
theorem pooled_congr {calls calls' : List (Call σ)}
    (h : calls'.filter (isFor messageType) = calls.filter (isFor messageType)) :
    (after self calls').pooled messageType = (after self calls).pooled messageType := by
  have hrequests : ∀ calls : List (Call σ),
      (calls.filterMap (requested self)).filter (·.1 = messageType) =
        (calls.filter (isFor messageType)).filterMap (requested self) := by
    intro calls
    rw [List.filter_filterMap, List.filterMap_filter]
    congr 1
    funext c
    cases c with
    | asyncPublisher => rfl
    | publisher type backend retryPolicy kwargs =>
      by_cases htype : type = messageType
      · simp [requested, isFor, htype]
      · simp [requested, isFor, htype]
  rw [pooled_after, pooled_after]
  exact Cache.requests_congr (by rw [hrequests, h, ← hrequests]) _

/-- The pool of a publisher is that of its message type. -/
theorem exists_backing (hk : Kept s) {pub : SyncPublisher}
    (h : (s.publisher self messageType backend retryPolicy kwargs).1 = .ok pub) :
    ∃ p, (s.publisher self messageType backend retryPolicy kwargs).2.pools[pub.backing]? =
        some p ∧
      (s.publisher self messageType backend retryPolicy kwargs).2.pooled messageType = some p := by
  have hkept : Kept (s.publisher self messageType backend retryPolicy kwargs).2 :=
    hk.call (.publisher messageType backend retryPolicy kwargs)
  have hl := lookup_of_ok h
  have hp := List.getElem?_eq_getElem (hkept.lt hl)
  exact ⟨_, hp, (pools_of_lookup hl).symm.trans hp⟩

/-- The first pool of a message type is what its call asks for. -/
theorem fits_of_first (hk : Kept s) (hnone : s.pooled messageType = none) {p : PublisherPool σ}
    (hp : (s.publisher self messageType backend retryPolicy kwargs).2.pooled messageType =
      some p) : Fits p retryPolicy kwargs := by
  have hcall : (s.call self (.publisher messageType backend retryPolicy kwargs)).pooled = _ :=
    pooled_call hk _
  simp only [Client.call, requested, Option.toList_some, List.foldl_cons, List.foldl_nil] at hcall
  rw [hcall, Cache.request_apply, hnone, Option.none_or, Cache.made, if_pos rfl] at hp
  cases hm : madeBy self messageType retryPolicy kwargs with
  | error e => rw [hm] at hp; cases hp
  | ok q =>
    rw [hm] at hp
    obtain rfl : q = p := Option.some.inj hp
    exact (madeBy_fits hm).2

/-- A publisher of a message type that has a pool is backed by it. -/
theorem shares_of_lookup {n : Nat} (hl : s.syncPools.lookup messageType = some n)
    {pub : SyncPublisher}
    (h : (s.publisher self messageType backend retryPolicy kwargs).1 = .ok pub) :
    pub.backing = n ∧ (s.publisher self messageType backend retryPolicy kwargs).2 = s := by
  obtain ⟨m, hm, hr⟩ | ⟨hnone, -⟩ :=
    publisher_cases self s messageType backend retryPolicy kwargs
  · rw [hr] at h ⊢
    obtain rfl : n = m := Option.some.inj (hl.symm.trans hm)
    exact ⟨(publish_ok h).2, rfl⟩
  · rw [hl] at hnone
    cases hnone

/-- **Which pool backs a publisher**: all publishers of a message type share one pool,
that of a call for this message type, and of their own call if there was none before
that could have made one; calls for other message types do not matter.  A call that
raises although its backend is known changes nothing. -/
theorem publishers_share (self : Config) (calls : List (Call σ)) (messageType backend : String)
    (retryPolicy : Option RetryPolicy) (kwargs : PoolArgs σ) :
    let call : Call σ := .publisher messageType backend retryPolicy kwargs
    let r := (after self calls).publisher self messageType backend retryPolicy kwargs
    (∀ e, r.1 = .error e → known backend = true → r.2 = after self calls) ∧
    (∀ calls', calls'.filter (isFor messageType) = calls.filter (isFor messageType) →
      answer ((after self calls').publisher self messageType backend retryPolicy kwargs) =
        answer r) ∧
    (∀ pub, r.1 = .ok pub → ∃ p, r.2.pools[pub.backing]? = some p ∧ p.messageType = messageType ∧
      (∃ backend' retryPolicy' kwargs',
        .publisher messageType backend' retryPolicy' kwargs' ∈ calls ++ [call] ∧
          Fits p retryPolicy' kwargs') ∧
      ((∀ pre backend' retryPolicy' kwargs' post,
        calls = pre ++ .publisher messageType backend' retryPolicy' kwargs' :: post →
          known backend' = true ∧ ∃ e, ((after self pre).publisher self messageType backend'
            retryPolicy' kwargs').1 = .error e) → Fits p retryPolicy kwargs) ∧
      (∀ more backend' retryPolicy' kwargs' pub',
        ((after self (calls ++ call :: more)).publisher self messageType backend' retryPolicy'
          kwargs').1 = .ok pub' →
        pub'.backing = pub.backing ∧
          ((after self (calls ++ call :: more)).publisher self messageType backend' retryPolicy'
            kwargs').2.pools[pub'.backing]? = some p)) := by
  intro call r
  have hk : Kept (after self calls) := kept_after calls
  have hsnoc : after self (calls ++ [call]) = r.2 := after_snoc calls call
  refine ⟨fun e he hknown => ?_, fun calls' h => ?_, fun pub hpub => ?_⟩
  · obtain ⟨n, -, hr⟩ | ⟨-, ⟨e', -, hr⟩ | ⟨p, -, hr⟩⟩ :=
      publisher_cases self (after self calls) messageType backend retryPolicy kwargs
    · rw [show r = _ from hr]
    · rw [show r = _ from hr]
    · rw [show r = _ from hr] at he
      exact absurd hknown (by simp [(publish_error he 0).1])
  · rw [show r = _ from rfl, answer_publisher (kept_after calls'), answer_publisher hk,
      pooled_congr h]
  · have hlookup : r.2.syncPools.lookup messageType = some pub.backing := lookup_of_ok hpub
    obtain ⟨p, hp, hpooled⟩ := exists_backing hk hpub
    have hcached : (after self (calls ++ [call])).pooled messageType = some p := hsnoc ▸ hpooled
    obtain ⟨backend', retryPolicy', kwargs', hmem, hmade⟩ := exists_call hcached
    have hfits := madeBy_fits hmade
    refine ⟨p, hp, hfits.1, ⟨backend', retryPolicy', kwargs', hmem, hfits.2⟩,
      fun hraises => fits_of_first hk (pooled_eq_none_of_raises hraises) hpooled, ?_⟩
    intro more backend' retryPolicy' kwargs' pub' hpub'
    have hmore : after self (calls ++ call :: more) = more.foldl (Client.call self) r.2 := by
      rw [← hsnoc, after, after, List.foldl_append, List.foldl_append]
      rfl
    have hl : (after self (calls ++ call :: more)).syncPools.lookup messageType =
        some pub.backing := hmore ▸ lookup_calls hlookup more
    obtain ⟨hsame, hstay⟩ := shares_of_lookup hl hpub'
    refine ⟨hsame, ?_⟩
    rw [hstay, hsame, pools_of_lookup hl, hmore]
    exact pooled_calls (hsnoc ▸ kept_after (calls ++ [call])) hpooled more

/-- The arguments of a call that asks for nothing. -/
def noArgs : PoolArgs Unit := ⟨none, none, none, none, none, false⟩

/-- `publisher("mt", num_workers="x")` raises; the next publisher of `"mt"` confirms, as
its call asks. -/
theorem publishers_share_first :
    let calls : List (Call Unit) :=
      [.publisher "mt" "pool" none { noArgs with numWorkers := some (.str "x") }]
    let r := (after usual calls).publisher usual "mt" "pool" none
      { noArgs with confirmDelivery := some true }
    after usual calls = initial ∧ ∃ p, r.2.pools[0]? = some p ∧ p.confirmDelivery = true := by
  intro calls r
  obtain ⟨hraises, -, -⟩ := publishers_share usual [] "mt" "pool" none
    { noArgs with numWorkers := some (.str "x") }
  obtain ⟨-, -, hok⟩ := publishers_share usual calls "mt" "pool" none
    { noArgs with confirmDelivery := some true }
  obtain ⟨p, hp, -, -, hown, -⟩ := hok (.pool 0) rfl
  refine ⟨hraises .conversion rfl rfl, p, hp, (hown ?_).confirmDelivery⟩
  intro pre backend retryPolicy kwargs post h
  rcases pre with _ | ⟨c, pre⟩
  · obtain ⟨hcall, -⟩ := List.cons.inj h
    cases hcall
    exact ⟨rfl, _, rfl⟩
  · obtain ⟨-, hrest⟩ := List.cons.inj h
    exact absurd hrest.symm (by simp)

/-- The publisher that a call returns is backed by the pool it asked for, and a call
that raises leaves the cache as it was. -/
def Undisturbed (self : Config) (calls : List (Call σ)) (messageType backend : String)
    (retryPolicy : Option RetryPolicy) (kwargs : PoolArgs σ) : Prop :=
  let r := (after self calls).publisher self messageType backend retryPolicy kwargs
  (∀ pub, r.1 = .ok pub → ∃ p, r.2.pools[pub.backing]? = some p ∧ Fits p retryPolicy kwargs) ∧
    ∀ e, r.1 = .error e → r.2.syncPools = (after self calls).syncPools

/-- A publisher with confirms, asked for after one without, is backed by a pool without
confirms; a call with an unknown backend leaves a pool behind. -/
theorem publishers_disturbed :
    ¬ Undisturbed usual [.publisher "mt" "pool" none noArgs] "mt" "pool" none
      { noArgs with confirmDelivery := some true } ∧
    ¬ Undisturbed usual [] "mt" "threads" none noArgs := by
  refine ⟨fun h => ?_, fun h => ?_⟩
  · obtain ⟨p, hp, hfits⟩ := h.1 (.pool 0) rfl
    have hconfirm := hfits.confirmDelivery
    obtain rfl := Option.some.inj hp
    cases hconfirm
  · have hcache := h.2 _ rfl
    cases hcache

end Client

end MqAdapters
