import MqAdapters.PublishBackend.Stop

/-!
# The connection and the channels of one run of the I/O thread

`_run` keeps a connection, a list of channels and the index of the next one in
local variables, and resets them in three places: when it connects, in its
handler, and at the end.

* `Pool`: the channels are all of the connection, no more than the pool has, and
  the index counts the requests that were published on it.
* `Sole`: no other connection of the run is open, and none once it has returned.
* `pool_coherent`: what follows for a run of `_run`, from its start on.
-/

namespace MqAdapters

open Python Theory

namespace PublishBackend

variable {self : Config} {s t u : PublishBackend} {th : Thread} {raises : Bool} {draw : ℚ}

/-- The requests that were published on the connection `c`. -/
def publishedOn (s : PublishBackend) (c : Nat) : Nat :=
  s.passed.countP fun call => call.channel.connection = c

/-- Where `_run` has ensured its connection. -/
def Pc.ensured : Pc → Bool
  | .openChannels | .confirm _ | .connected | .get _ _ | .pump _ | .serve _ => true
  | _ => false

/-- The local variables of `_run` fit together, see the head of the file. -/
structure Pool (config : Config) (s : PublishBackend) (th : Thread) : Prop where
  conn : ∀ c, th.conn = some c → c < s.connections.length
  ensured : th.pc.ensured = true → th.conn.isSome = true
  channels : ∀ ch ∈ th.channels, th.conn = some ch.connection ∧ ch.number < s.channelsCreated
  nodup : th.channels.Nodup
  few : th.channels.length ≤ config.poolSize
  pending : ∀ ch, th.pc = .confirm ch → th.conn = some ch.connection ∧
    ch.number < s.channelsCreated ∧ ch ∉ th.channels ∧ th.channels.length < config.poolSize
  index : ∀ c, th.conn = some c → th.chIndex = s.publishedOn c

/-- The pool of the thread, and no request was published on a connection that is
still to come. -/
structure Pooling (config : Config) (s : PublishBackend) : Prop where
  pool : ∀ th, s.thread = some th → Pool config s th
  passed : ∀ call ∈ s.passed, call.channel.connection < s.connections.length

theorem pooling_initial (self : Config) : Pooling self initial :=
  ⟨nofun, nofun⟩

/-- Nothing was published on a new connection. -/
theorem Pooling.publishedOn_fresh (h : Pooling self s) :
    s.publishedOn s.connections.fresh = 0 := by
  unfold publishedOn
  rw [List.countP_eq_zero]
  intro call hcall
  have hlt := h.passed call hcall
  have hne : call.channel.connection ≠ s.connections.length := Nat.ne_of_lt hlt
  simp [Connections.fresh, hne]

/-- The thread goes on, with its connection and its channels as they are. -/
theorem Pool.goes {th' : Thread} (h : Pool self s th)
    (hlen : t.connections.length = s.connections.length) (hpassed : t.passed = s.passed)
    (hcreated : s.channelsCreated ≤ t.channelsCreated) (hconn : th'.conn = th.conn)
    (hchannels : th'.channels = th.channels) (hindex : th'.chIndex = th.chIndex)
    (hensured : th'.pc.ensured = true → th.conn.isSome = true)
    (hpending : ∀ ch, th'.pc = .confirm ch → th.conn = some ch.connection ∧
      ch.number < t.channelsCreated ∧ ch ∉ th.channels ∧ th.channels.length < self.poolSize) :
    Pool self t th' where
  conn c hc := hlen ▸ h.conn c (hconn ▸ hc)
  ensured hp := hconn ▸ hensured hp
  channels ch hch := by
    obtain ⟨hc, hn⟩ := h.channels ch (hchannels ▸ hch)
    exact ⟨hconn.trans hc, Nat.lt_of_lt_of_le hn hcreated⟩
  nodup := hchannels ▸ h.nodup
  few := hchannels ▸ h.few
  pending ch hp := by
    rw [hconn, hchannels]
    exact hpending ch hp
  index c hc := by
    rw [hindex, h.index c (hconn ▸ hc)]
    unfold publishedOn
    rw [hpassed]

/-- The channel joins the pool. -/
theorem Pool.joins {ch : Channel} (h : Pool self s th) (hlt : th.channels.length < self.poolSize)
    (hconn : th.conn = some ch.connection) (hnew : ch ∉ th.channels) (hens : th.pc.ensured = true)
    (hlen : t.connections.length = s.connections.length) (hpassed : t.passed = s.passed)
    (hcreated : s.channelsCreated ≤ t.channelsCreated) (hnumber : ch.number < t.channelsCreated) :
    Pool self t { th with channels := th.channels ++ [ch], pc := .openChannels } where
  conn c hc := hlen ▸ h.conn c hc
  ensured _ := h.ensured hens
  channels x hx := by
    rcases List.mem_append.mp hx with hx | hx
    · obtain ⟨hxc, hxn⟩ := h.channels x hx
      exact ⟨hxc, Nat.lt_of_lt_of_le hxn hcreated⟩
    · rw [List.mem_singleton.mp hx]
      exact ⟨hconn, hnumber⟩
  nodup := by
    refine List.nodup_append.mpr ⟨h.nodup, by simp, ?_⟩
    intro x hx y hy
    rw [List.mem_singleton.mp hy]
    exact fun hxy => hnew (hxy ▸ hx)
  few := by
    simp only [List.length_append, List.length_singleton]
    omega
  pending x hp := by cases hp
  index c hc := by
    rw [h.index c hc]
    unfold publishedOn
    rw [hpassed]

/-- Closing a connection leaves the thread's variables alone. -/
theorem length_closeConnection (s : PublishBackend) (conn : Option Nat) (raises : Bool) :
    (s.closeConnection conn raises).connections.length = s.connections.length := by
  unfold closeConnection
  repeat' split
  all_goals first | rfl | exact List.length_set

theorem closeConnection_passed (s : PublishBackend) (conn : Option Nat) (raises : Bool) :
    (s.closeConnection conn raises).passed = s.passed := by
  obtain ⟨cs, stats, hclose⟩ := exists_closeConnection s conn raises
  rw [hclose]

theorem closeConnection_channelsCreated (s : PublishBackend) (conn : Option Nat) (raises : Bool) :
    (s.closeConnection conn raises).channelsCreated = s.channelsCreated := by
  obtain ⟨cs, stats, hclose⟩ := exists_closeConnection s conn raises
  rw [hclose]

/-- A request is published on a channel of the pool. -/
theorem publish_pool (call : PublishCall) {pc : Pc} (hp : Pooling self s) (hpool : Pool self s th)
    (hmem : th.channels[th.chIndex % th.channels.length]? = some call.channel)
    (hth : t.thread = some { th with chIndex := th.chIndex + 1, pc := pc })
    (hpc : pc.ensured = false) (hpassed : t.passed = s.passed ++ [call])
    (hlen : t.connections = s.connections) (hcreated : t.channelsCreated = s.channelsCreated) :
    Pooling self t := by
  obtain ⟨hconn, -⟩ := hpool.channels _ (List.mem_of_getElem? hmem)
  refine ⟨fun x hx => ?_, fun x hx => ?_⟩
  · obtain rfl := Option.some.inj (hth.symm.trans hx)
    refine ⟨hlen ▸ hpool.conn, ?_, hcreated ▸ hpool.channels, hpool.nodup, hpool.few, ?_, ?_⟩
    · intro h
      rw [hpc] at h
      cases h
    · rintro ch rfl
      cases hpc
    · intro c hc
      obtain rfl : c = call.channel.connection := Option.some.inj (hc.symm.trans hconn)
      have hindex := hpool.index _ hconn
      unfold publishedOn at hindex ⊢
      rw [hpassed, List.countP_append, hindex]
      simp
  · rw [hpassed] at hx
    rw [hlen]
    rcases List.mem_append.mp hx with hx | hx
    · exact hp.passed x hx
    · rw [List.mem_singleton.mp hx]
      exact hpool.conn _ hconn

/-- **One step of `_run` keeps its variables fitting together.** -/
theorem io_pool (hp : Pooling self s) (hth : s.thread = some th)
    (h : s.io self th raises draw = some t) : Pooling self t := by
  have hpool := hp.pool th hth
  have hc := io_cases h
  -- the thread goes on and nothing is published
  have hgoes : ∀ {th' : Thread}, t.thread = some th' → t.passed = s.passed →
      t.connections.length = s.connections.length → Pool self t th' → Pooling self t := by
    intro th' hth' hpassed hlen hpool'
    refine ⟨fun x hx => ?_, fun call hcall => ?_⟩
    · obtain rfl : th' = x := Option.some.inj (hth'.symm.trans hx)
      exact hpool'
    · rw [hlen]
      exact hp.passed call (hpassed ▸ hcall)
  cases hpc : th.pc <;> simp only [hpc] at hc
  case top =>
    obtain rfl : t = _ := hc
    refine hgoes rfl rfl rfl (hpool.goes rfl rfl (Nat.le_refl _) rfl rfl rfl ?_ ?_)
    · cases s.stopEvent <;> nofun
    · cases s.stopEvent <;> nofun
  case connect =>
    obtain ⟨hu, rfl⟩ | ⟨-, -, rfl⟩ | ⟨-, -, rfl⟩ := hc
    · obtain ⟨c, hconn, -⟩ := Connections.usable_iff.mp hu
      exact hgoes rfl rfl rfl (hpool.goes rfl rfl (Nat.le_refl _) rfl rfl rfl
        (fun _ => by rw [hconn]; rfl) nofun)
    · exact hgoes rfl rfl rfl (hpool.goes rfl rfl (Nat.le_refl _) rfl rfl rfl nofun nofun)
    · have hlen : s.connections.connect.length = s.connections.length + 1 := by
        simp [Connections.connect]
      refine ⟨fun x hx => ?_, fun call hcall => ?_⟩
      · obtain rfl := Option.some.inj hx
        refine ⟨?_, fun _ => rfl, nofun, List.nodup_nil, Nat.zero_le _, nofun, ?_⟩
        · rintro c ⟨⟩
          exact hlen ▸ Nat.lt_succ_self _
        · rintro c ⟨⟩
          exact hp.publishedOn_fresh.symm
      · exact hlen ▸ Nat.lt_succ_of_lt (hp.passed call hcall)
  case openChannels =>
    have hsome := hpool.ensured (by rw [hpc]; rfl)
    obtain ⟨c, hconn⟩ := Option.isSome_iff_exists.mp hsome
    have hget : th.conn = some (th.conn.getD 0) := by rw [hconn, Option.getD_some]
    have hnew : (⟨th.conn.getD 0, s.channelsCreated⟩ : Channel) ∉ th.channels :=
      fun hmem => Nat.lt_irrefl _ (hpool.channels _ hmem).2
    obtain ⟨-, rfl⟩ | ⟨-, -, rfl⟩ | ⟨hlt, -, -, rfl⟩ | ⟨hlt, -, -, rfl⟩ := hc
    · exact hgoes rfl rfl rfl (hpool.goes rfl rfl (Nat.le_refl _) rfl rfl rfl
        (fun _ => hsome) nofun)
    · exact hgoes rfl rfl rfl (hpool.goes rfl rfl (Nat.le_refl _) rfl rfl rfl nofun nofun)
    · refine hgoes rfl rfl rfl (hpool.goes rfl rfl (Nat.le_succ _) rfl rfl rfl
        (fun _ => hsome) ?_)
      rintro ch ⟨⟩
      exact ⟨hget, Nat.lt_succ_self _, hnew, hlt⟩
    · exact hgoes rfl rfl rfl (hpool.joins hlt hget hnew (by rw [hpc]; rfl) rfl rfl
        (Nat.le_succ _) (Nat.lt_succ_self _))
  case confirm ch =>
    obtain rfl : t = _ := hc
    obtain ⟨hconn, hnumber, hnew, hlt⟩ := hpool.pending ch hpc
    exact hgoes rfl rfl rfl (hpool.joins hlt hconn hnew (by rw [hpc]; rfl) rfl rfl
      (Nat.le_refl _) hnumber)
  case connected =>
    obtain ⟨timeout, -, rfl⟩ := hc
    exact hgoes rfl rfl rfl (hpool.goes rfl rfl (Nat.le_refl _) rfl rfl rfl
      (fun _ => hpool.ensured (by rw [hpc]; rfl)) nofun)
  case get timeout deadline =>
    have hsome := hpool.ensured (by rw [hpc]; rfl)
    obtain ⟨r, q, -, rfl⟩ | ⟨q, -, rfl⟩ | ⟨-, -, rfl⟩ := hc
    all_goals exact hgoes rfl rfl rfl (hpool.goes rfl rfl (Nat.le_refl _) rfl rfl rfl
      (fun _ => hsome) nofun)
  case pump item =>
    have hsome := hpool.ensured (by rw [hpc]; rfl)
    obtain ⟨-, rfl⟩ | ⟨-, -, rfl⟩ := hc
    all_goals exact hgoes rfl rfl rfl (hpool.goes rfl rfl (Nat.le_refl _) rfl rfl rfl
      (fun _ => hsome) nofun)
  case serve item =>
    rcases item with _ | _ | r
    · obtain rfl : t = _ := hc
      exact hgoes rfl rfl rfl (hpool.goes rfl rfl (Nat.le_refl _) rfl rfl rfl nofun nofun)
    · obtain rfl : t = _ := hc
      exact hgoes rfl rfl rfl (hpool.goes rfl rfl (Nat.le_refl _) rfl rfl rfl nofun nofun)
    · obtain ⟨-, rfl⟩ | ⟨ch, hch, rfl⟩ := hc
      · exact hgoes rfl rfl rfl (hpool.goes rfl rfl (Nat.le_refl _) rfl rfl rfl nofun nofun)
      · have hens : (if raises then Pc.handler else Pc.top).ensured = false := by
          cases raises <;> rfl
        exact publish_pool ⟨r, ch, raises⟩ hp hpool hch rfl hens rfl rfl rfl
  case handler =>
    obtain ⟨-, rfl⟩ := hc
    refine hgoes rfl rfl rfl (hpool.goes rfl rfl (Nat.le_refl _) rfl rfl rfl ?_ ?_)
    all_goals cases self.reconnectRetryPolicy.pause (s.reconnectFailures + 2) draw <;> nofun
  case sleep until_ =>
    obtain ⟨-, rfl⟩ := hc
    exact hgoes rfl (closeConnection_passed s th.conn raises)
      (length_closeConnection s th.conn raises)
      ⟨nofun, nofun, nofun, List.nodup_nil, Nat.zero_le _, nofun, nofun⟩
  case cleanup exit =>
    obtain rfl : t = _ := hc
    have hpassed := closeConnection_passed s th.conn raises
    have hlen := length_closeConnection s th.conn raises
    have hcreated := closeConnection_channelsCreated s th.conn raises
    exact hgoes rfl hpassed hlen
      (hpool.goes hlen hpassed (Nat.le_of_eq hcreated.symm) rfl rfl rfl nofun nofun)

/-! ## The connections of one run -/

/-- The thread has returned. -/
def Pc.returned : Pc → Bool
  | .dead (.escaped _) => false
  | .dead _ => true
  | _ => false

/-- Of the connections from `base` on, only the thread's is open, and none once it
has returned. -/
structure Sole (base : Nat) (s : PublishBackend) (th : Thread) : Prop where
  only : ∀ c, base ≤ c → s.connections.isOpen c = true → th.conn = some c
  closed : ∀ exit, th.pc = .dead exit → (∀ e, exit ≠ .escaped e) →
    ∀ c, base ≤ c → s.connections.isOpen c = false

theorem isOpen_closeConnection {conn : Option Nat} {c : Nat}
    (h : (s.closeConnection conn raises).connections.isOpen c = true) :
    s.connections.isOpen c = true ∧ conn ≠ some c := by
  unfold closeConnection at h
  split at h
  · exact ⟨h, nofun⟩
  · next d =>
    split at h
    · obtain ⟨hopen, hne⟩ := Connections.isOpen_close.mp h
      exact ⟨hopen, fun hd => hne (Option.some.inj hd).symm⟩
    · next hd =>
      refine ⟨h, ?_⟩
      rintro ⟨⟩
      exact hd h

variable {base : Nat}

/-- The thread goes on and opens nothing. -/
theorem Sole.goes {th' : Thread} (h : Sole base s th)
    (hopen : ∀ c, t.connections.isOpen c = true → s.connections.isOpen c = true)
    (hconn : th'.conn = th.conn)
    (hpc : th'.pc.returned = false) : Sole base t th' where
  only c hc ho := hconn.trans (h.only c hc (hopen c ho))
  closed exit hexit hne := by
    rw [hexit] at hpc
    cases exit
    case escaped e => exact absurd rfl (hne e)
    all_goals cases hpc

/-- None of its connections is open once the thread has closed its own. -/
theorem Sole.none_open (h : Sole base s th) (raises : Bool) {c : Nat} (hc : base ≤ c) :
    (s.closeConnection th.conn raises).connections.isOpen c = false := by
  by_contra ho
  obtain ⟨hopen, hne⟩ := isOpen_closeConnection (by simpa using ho)
  exact hne (h.only c hc hopen)

theorem io_sole (hs : Sole base s th) (h : s.io self th raises draw = some t) :
    ∃ th', t.thread = some th' ∧ Sole base t th' := by
  have hc := io_cases h
  cases hpc : th.pc <;> simp only [hpc] at hc
  case top =>
    obtain rfl : t = _ := hc
    exact ⟨_, rfl, hs.goes (fun _ ho => ho) rfl (by cases s.stopEvent <;> rfl)⟩
  case connect =>
    obtain ⟨-, rfl⟩ | ⟨-, -, rfl⟩ | ⟨hu, -, rfl⟩ := hc
    · exact ⟨_, rfl, hs.goes (fun _ ho => ho) rfl rfl⟩
    · exact ⟨_, rfl, hs.goes (fun _ ho => ho) rfl rfl⟩
    · refine ⟨_, rfl, ?_, fun exit hexit => by cases hexit⟩
      intro c hc ho
      rcases Connections.isOpen_connect.mp ho with ho | rfl
      · rw [hs.only c hc ho] at hu
        exact absurd ho (by simpa [Connections.usable] using hu)
      · rfl
  case openChannels =>
    obtain ⟨-, rfl⟩ | ⟨-, -, rfl⟩ | ⟨-, -, -, rfl⟩ | ⟨-, -, -, rfl⟩ := hc
    all_goals exact ⟨_, rfl, hs.goes (fun _ ho => ho) rfl rfl⟩
  case confirm =>
    obtain rfl : t = _ := hc
    exact ⟨_, rfl, hs.goes (fun _ ho => ho) rfl rfl⟩
  case connected =>
    obtain ⟨timeout, -, rfl⟩ := hc
    exact ⟨_, rfl, hs.goes (fun _ ho => ho) rfl rfl⟩
  case get =>
    obtain ⟨r, q, -, rfl⟩ | ⟨q, -, rfl⟩ | ⟨-, -, rfl⟩ := hc
    all_goals exact ⟨_, rfl, hs.goes (fun _ ho => ho) rfl rfl⟩
  case pump item =>
    obtain ⟨-, rfl⟩ | ⟨-, -, rfl⟩ := hc
    all_goals exact ⟨_, rfl, hs.goes (fun _ ho => ho) rfl rfl⟩
  case serve item =>
    rcases item with _ | _ | r
    · obtain rfl : t = _ := hc
      exact ⟨_, rfl, hs.goes (fun _ ho => ho) rfl rfl⟩
    · obtain rfl : t = _ := hc
      exact ⟨_, rfl, hs.goes (fun _ ho => ho) rfl rfl⟩
    · obtain ⟨-, rfl⟩ | ⟨ch, -, rfl⟩ := hc
      · exact ⟨_, rfl, hs.goes (fun _ ho => ho) rfl rfl⟩
      · exact ⟨_, rfl, hs.goes (fun _ ho => ho) rfl (by cases raises <;> rfl)⟩
  case handler =>
    obtain ⟨-, rfl⟩ := hc
    refine ⟨_, rfl, hs.goes (fun _ ho => ho) rfl ?_⟩
    cases self.reconnectRetryPolicy.pause (s.reconnectFailures + 2) draw <;> rfl
  case sleep until_ =>
    obtain ⟨-, rfl⟩ := hc
    refine ⟨_, rfl, ?_, fun exit hexit => by cases hexit⟩
    intro c hc ho
    exact absurd ho (by simpa [goto] using hs.none_open raises hc)
  case cleanup exit =>
    obtain rfl : t = _ := hc
    refine ⟨_, rfl, ?_, fun _ _ _ c hc => hs.none_open raises hc⟩
    intro c hc ho
    exact absurd ho (by simpa [goto] using hs.none_open raises hc)

/-! ## Runs -/

/-- No other thread is started. -/
def sameRun (s : PublishBackend) : Action → Prop
  | .start => s.starting ≠ some .spawn
  | _ => True

theorem Aside.length_connections (h : Aside s t) :
    t.connections.length = s.connections.length := by
  obtain hconns | ⟨c, hconns⟩ := h.connections
  · rw [hconns]
  · rw [hconns, Connections.close, List.length_set]

theorem Aside.isOpen (h : Aside s t) {d : Nat} (hd : t.connections.isOpen d = true) :
    s.connections.isOpen d = true := by
  obtain hconns | ⟨c, hconns⟩ := h.connections
  · exact hconns ▸ hd
  · exact Connections.isOpen_of_close (hconns ▸ hd)

theorem pooling_step {a : Action} (hp : Pooling self s) (h : s.step self a = some t) :
    Pooling self t := by
  obtain ⟨r, d, th, rfl, hth, h⟩ | ⟨rfl, -, rfl⟩ | ⟨-, ha⟩ := thread_cases h
  · exact io_pool hp hth h
  · refine ⟨fun th hth => ?_, hp.passed⟩
    obtain rfl := Option.some.inj hth
    exact ⟨nofun, nofun, nofun, List.nodup_nil, Nat.zero_le _, nofun, nofun⟩
  · refine ⟨fun th hth' => ?_, fun call hcall => ?_⟩
    · have hpool := hp.pool th (ha.thread ▸ hth')
      exact hpool.goes ha.length_connections ha.passed (Nat.le_of_eq ha.channelsCreated.symm) rfl
        rfl rfl hpool.ensured (ha.channelsCreated ▸ hpool.pending)
    · rw [ha.length_connections]
      exact hp.passed call (ha.passed ▸ hcall)

theorem pooling_of_reach (h : (machine self).Reach Machine.anyStep s) : Pooling self s :=
  Machine.Path.invariant h (pooling_initial self) fun _ _ _ _ hp ht => pooling_step hp ht

theorem sole_of_path (h : (machine self).Path sameRun s t)
    (hs : ∃ th, s.thread = some th ∧ Sole base s th) :
    ∃ th, t.thread = some th ∧ Sole base t th := by
  refine Machine.Path.invariant (P := fun s => ∃ th, s.thread = some th ∧ Sole base s th) h hs ?_
  rintro s a t hsame ⟨th, hth, hs⟩ ht
  obtain ⟨r, d, th', rfl, hth', ht⟩ | ⟨rfl, hspawn, -⟩ | ⟨-, ha⟩ := thread_cases ht
  · obtain rfl : th = th' := Option.some.inj (hth.symm.trans hth')
    exact io_sole hs ht
  · exact absurd hspawn hsame
  · refine ⟨th, ha.thread.trans hth, fun c hc ho => hs.only c hc (ha.isOpen ho), ?_⟩
    intro exit hexit hne c hc
    by_contra ho
    have hopen := ha.isOpen (d := c) (by simpa using ho)
    rw [hs.closed exit hexit hne c hc] at hopen
    cases hopen

/-- **`_run` owns one connection and a coherent pool.**  From its start on, at most
one of the connections it got is open, and none once it has returned.  Whenever a
request is published the pool is full, all channels are of the current connection,
and the request goes to the channel numbered by how many were published on that
connection before. -/
theorem pool_coherent (hs : (machine self).Reach Machine.anyStep s)
    (hspawn : s.starting = some .spawn) (ht : s.step self .start = some t)
    (hu : (machine self).Path sameRun t u) :
    (∀ c d, s.connections.length ≤ c → s.connections.length ≤ d →
      u.connections.isOpen c = true → u.connections.isOpen d = true → c = d) ∧
    (∀ th exit, u.thread = some th → th.pc = .dead exit → (∀ e, exit ≠ .escaped e) →
      ∀ c, s.connections.length ≤ c → u.connections.isOpen c = false) ∧
    ∀ th r raises draw v, u.thread = some th → th.pc = .serve (.request r) →
      u.step self (.io raises draw) = some v →
      ∃ c ch, th.conn = some c ∧ th.channels.length = self.poolSize ∧ th.channels.Nodup ∧
        (∀ x ∈ th.channels, x.connection = c) ∧
        th.channels[u.publishedOn c % self.poolSize]? = some ch ∧
        v.passed = u.passed ++ [⟨r, ch, raises⟩] := by
  have hreach : (machine self).Reach Machine.anyStep u :=
    Machine.Path.trans (hs.snoc (a := .start) trivial ht) (hu.mono fun _ _ _ => trivial)
  have hstart : ∃ th, t.thread = some th ∧ Sole s.connections.length t th := by
    obtain ⟨hclear, -⟩ | ⟨-, rfl⟩ := step_cases ht
    · exact absurd (hspawn.symm.trans hclear) (by simp)
    · refine ⟨_, rfl, fun c hc ho => ?_, fun exit hexit => by cases hexit⟩
      exact absurd ho (by simp [Connections.isOpen_of_fresh_le hc])
  obtain ⟨th, hth, hsole⟩ := sole_of_path hu hstart
  refine ⟨?_, ?_, ?_⟩
  · intro c d hc hd hco hdo
    exact Option.some.inj ((hsole.only c hc hco).symm.trans (hsole.only d hd hdo))
  · intro th' exit hth' hexit hne c hc
    obtain rfl : th = th' := Option.some.inj (hth.symm.trans hth')
    exact hsole.closed exit hexit hne c hc
  · intro th' r raises draw v hth' hpc hv
    obtain rfl : th = th' := Option.some.inj (hth.symm.trans hth')
    have hpool := (pooling_of_reach hreach).pool th hth
    have hfull : self.poolSize ≤ th.channels.length := by
      have hpooled := (accounted_of_reach hreach).1.pooled th hth
      unfold Pooled at hpooled
      rwa [hpc] at hpooled
    have hlen : th.channels.length = self.poolSize := Nat.le_antisymm hpool.few hfull
    obtain ⟨c, hconn⟩ := Option.isSome_iff_exists.mp (hpool.ensured (by rw [hpc]; rfl))
    obtain ⟨th', hth', hio⟩ := Option.bind_eq_some_iff.mp hv
    obtain rfl : th = th' := Option.some.inj (hth.symm.trans hth')
    have hcases := io_cases hio
    simp only [hpc] at hcases
    obtain ⟨hnone, -⟩ | ⟨ch, hch, rfl⟩ := hcases
    · exact absurd hnone (channel_ne_none hfull)
    · refine ⟨c, ch, hconn, hlen, hpool.nodup, ?_, ?_, rfl⟩
      · intro x hx
        exact Option.some.inj ((hpool.channels x hx).1.symm.trans hconn)
      · rw [← hpool.index c hconn, ← hlen]
        exact hch

/-- `start` up to its last line. -/
def aboutToSpawn : PublishBackend :=
  ((machine defaultConfig).runIn (fun _ _ => true) initial [.callStart, .start]).getD initial

def spawned : PublishBackend := (aboutToSpawn.step defaultConfig .start).getD initial

/-- The new thread connects, fills its pool and takes a request. -/
def servingRun : List Action :=
  [.callPublish [1] none, .publish 0] ++ List.replicate 10 (.io false 0)

def serving : PublishBackend :=
  ((machine defaultConfig).runIn (fun s _ => s.starting.isNone) spawned servingRun).getD initial

def served : PublishBackend := (serving.step defaultConfig (.io false 0)).getD initial

theorem pool_coherent_serving :
    ∃ th c ch, serving.thread = some th ∧ th.conn = some c ∧ th.channels.length = 4 ∧
      th.channels[0]? = some ch ∧ served.passed = [⟨⟨[1], "events", "all"⟩, ch, false⟩] := by
  have hreach : (machine defaultConfig).Reach Machine.anyStep aboutToSpawn :=
    (Machine.path_of_runIn (c := fun _ _ => true) (show (machine defaultConfig).runIn
      (fun _ _ => true) initial [.callStart, .start] = some aboutToSpawn from rfl)).mono
        fun _ _ _ => trivial
  have hpath : (machine defaultConfig).Path sameRun spawned serving := by
    refine (Machine.path_of_runIn (show (machine defaultConfig).runIn
      (fun s _ => s.starting.isNone) spawned servingRun = some serving from rfl)).mono ?_
    intro s a hnone
    cases a <;> simp_all [sameRun]
  obtain ⟨-, -, hserve⟩ := pool_coherent hreach rfl (t := spawned) rfl hpath
  obtain ⟨c, ch, hconn, hlen, -, -, hch, hpassed⟩ :=
    hserve _ ⟨[1], "events", "all"⟩ false 0 served rfl rfl rfl
  exact ⟨_, c, ch, rfl, hconn, hlen, hch, hpassed⟩

end PublishBackend

end MqAdapters
