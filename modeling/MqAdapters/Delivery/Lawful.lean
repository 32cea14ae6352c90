import MqAdapters.Delivery.Paths

/-!
# What has to happen before the broker is asked for something

`Lawful path self d h a` says what the calls `h` made for the delivery `d` must
contain when the broker is asked for `a`: an ack needs a callback that
completed, or one that raised and a publish to the dead-letter queue that
worked; a nack or a publish needs a callback that raised, or a *direct* path on
which an ack raised.

`deliveryCrew_kept` shows that all three paths keep to it, from any answers and
in any interleaving.  There is one lemma for each program; what each of them
may rely on when it is started is the field `pre` of `lawRules`.
-/

namespace MqAdapters

open Python Theory Code

/-- The delivery is handled by code that acks inside the `try` of the callback:
always, unless the executor took it over. -/
def Direct (path : Path) (h : List Call) : Prop :=
  path ≠ .offload ∨ ∃ e ∈ h, ∃ x, e = ⟨.acquire, .error x⟩ ∨ e = ⟨.submit, .error x⟩

/-- What must have happened before the broker is asked for something. -/
def Lawful (path : Path) (self : Settings) (d : Delivery) (h : List Call) : BrokerAction → Prop
  | .ack ch tag => ch = d.channel ∧ tag = d.deliveryTag ∧
      (Completed path h ∨ (Failed path h ∧ ∃ q, d.poisonQueue self = some q ∧
        Ended h (.publish "" q d.body) (.ok ())))
  | .nack ch tag _ => ch = d.channel ∧ tag = d.deliveryTag ∧
      (Failed path h ∨ (Direct path h ∧ Ended h (.ack ch tag) (.error .exception)))
  | .publish exchange q body => exchange = "" ∧ d.poisonQueue self = some q ∧ body = d.body ∧
      (Failed path h ∨
        (Direct path h ∧ Ended h (.ack d.channel d.deliveryTag) (.error .exception)))

/-- What an operation asks of the broker. -/
def asks : Op → Option BrokerAction
  | .basicPublish _ exchange routingKey body _ => some (.publish exchange routingKey body)
  | .defaultExchangePublish routingKey body _ => some (.publish "" routingKey body)
  | .basicAck ch deliveryTag => some (.ack ch deliveryTag)
  | .basicNack ch deliveryTag requeue => some (.nack ch deliveryTag requeue)
  | _ => none

section

variable {path : Path} {h h' : List Call}

theorem Direct.mono (hs : h.Sublist h') (hd : Direct path h) : Direct path h' := by
  rcases hd with hd | ⟨e, he, hx⟩
  · exact Or.inl hd
  · exact Or.inr ⟨e, hs.subset he, hx⟩

theorem Direct.of_acquire {x : Raised} (hx : (⟨.acquire, .error x⟩ : Call) ∈ h) : Direct path h :=
  Or.inr ⟨_, hx, x, Or.inl rfl⟩

theorem Direct.of_submit {x : Raised} (hx : (⟨.submit, .error x⟩ : Call) ∈ h) : Direct path h :=
  Or.inr ⟨_, hx, x, Or.inr rfl⟩

theorem Lawful.mono {self : Settings} {d : Delivery} {a : BrokerAction} (hs : h.Sublist h')
    (hl : Lawful path self d h a) : Lawful path self d h' a := by
  cases a with
  | ack ch tag =>
    obtain ⟨hch, htag, hc | ⟨hf, q, hq, he⟩⟩ := hl
    · exact ⟨hch, htag, Or.inl (hc.mono hs)⟩
    · exact ⟨hch, htag, Or.inr ⟨hf.mono hs, q, hq, he.mono hs⟩⟩
  | nack ch tag requeue =>
    obtain ⟨hch, htag, hf | ⟨hd, he⟩⟩ := hl
    · exact ⟨hch, htag, Or.inl (hf.mono hs)⟩
    · exact ⟨hch, htag, Or.inr ⟨hd.mono hs, he.mono hs⟩⟩
  | publish exchange q body =>
    obtain ⟨hx, hq, hb, hf | ⟨hd, he⟩⟩ := hl
    · exact ⟨hx, hq, hb, Or.inl (hf.mono hs)⟩
    · exact ⟨hx, hq, hb, Or.inr ⟨hd.mono hs, he.mono hs⟩⟩

end

/-- The rules that the three paths keep.  Besides the above, programs are only
started on the offload path, by `submit` or by code that `submit` started. -/
def lawRules (path : Path) (self : Settings) (d : Delivery) : Program.Rules Op Op.Ans Job where
  allowed := anyAnswer
  guard h o := (∀ a, asks o = some a → Lawful path self d h a) ∧
    ∀ r, started ⟨o, r⟩ ≠ [] → path = .offload ∧ (o = .submit ∨ ⟨.submit, .ok ()⟩ ∈ h)
  spawn := started
  pre
    | .direct, h => path ≠ .async ∧ Direct path h
    | .offloading, _ => path = .offload
    | .task, _ => path = .async
    | .work, h => path = .offload ∧ ⟨.submit, .ok ()⟩ ∈ h
    | .scheduled (.ack tag), h => path = .offload ∧ tag = d.deliveryTag ∧ Completed path h
    | .scheduled (.fail tag cfg attempt), h => path = .offload ∧ tag = d.deliveryTag ∧
        Failed path h ∧ cfg.poisonQueue attempt = d.poisonQueue self

section

variable {path : Path} {self : Settings} {d : Delivery} {h : List Call} {o : Op}

@[simp] theorem lawRules_guard : (lawRules path self d).guard h o ↔
    (∀ a, asks o = some a → Lawful path self d h a) ∧
      ∀ r, started ⟨o, r⟩ ≠ [] → path = .offload ∧ (o = .submit ∨ ⟨.submit, .ok ()⟩ ∈ h) :=
  Iff.rfl

@[simp] theorem lawRules_allowed (e : Call) : (lawRules path self d).allowed e ↔ True := Iff.rfl

@[simp] theorem lawRules_spawn : (lawRules path self d).spawn = started := rfl

theorem internalWrapper_lawful (hp : path ≠ .async) (hd : Direct path h) :
    (internalWrapper self d.channel d.method d.properties d.body).wp (lawRules path self d)
      (fun _ _ => True) h := by
  rcases self with ⟨dest, _ | _⟩
  · simp [internalWrapper, Delivery.method, asks, Lawful, started, finish, broker, hp]
    -- what is left is the nack after an ack that raised
    refine ⟨?_, ?_, ?_⟩ <;> exact Or.inr (hd.mono (List.sublist_append_left _ _))
  · simp [internalWrapper, asks, started]

theorem scheduled_lawful {s : Schedule} (hs : (lawRules path self d).pre (.scheduled s) h) :
    (s.run d.channel d.properties d.body).wp (lawRules path self d)
      (fun _ r => r ≠ .error .exception) h := by
  cases s with
  | ack tag =>
    obtain ⟨_, rfl, hc⟩ := hs
    simp [Schedule.run, ackOffloaded, asks, Lawful, started, hc]
  | fail tag cfg attempt =>
    obtain ⟨_, rfl, hf, hq⟩ := hs
    rcases hq' : d.poisonQueue self with _ | q
    · simp [Schedule.run, handleFail, Program.wp_ite, asks, Lawful, started, hf, hq, hq']
    · simp [Schedule.run, handleFail, asks, Lawful, started, broker, hf, hq, hq']

theorem onDone_lawful {exc : Option Raised} (hsub : (⟨.submit, .ok ()⟩ : Call) ∈ h)
    (hexc : (exc = none ∧ Completed .offload h) ∨ (exc ≠ none ∧ Failed .offload h)) :
    (onDone self d.channel d.method d.properties d.body exc).wp (lawRules .offload self d)
      (fun _ _ => True) h := by
  have hpre : ∀ h', (lawRules .offload self d).pre
      (.scheduled (.of self d.properties d.deliveryTag exc)) (h ++ h') := by
    intro h'
    rcases exc with _ | x
    · refine ⟨rfl, rfl, Completed.mono (List.sublist_append_left _ _) ?_⟩
      simpa using hexc
    · refine ⟨rfl, rfl, Failed.mono (List.sublist_append_left _ _) ?_, rfl⟩
      simpa using hexc
  have hrun : ∀ {h' Q}, (∀ h'' r, r ≠ .error .exception → Q h'' r) →
      ((Schedule.of self d.properties d.deliveryTag exc).run d.channel d.properties d.body).wp
        (lawRules .offload self d) Q (h ++ h') :=
    fun hQ => Program.wp_mono hQ _ _ (scheduled_lawful (hpre _))
  rcases exc with _ | x
  all_goals
    simp [onDone, Delivery.method, Program.wp_ite, asks, started, hsub]
    exact fun _ => ⟨hrun (by simp), hpre _, hrun (by simp)⟩

theorem offloaded_lawful (hsub : (⟨.submit, .ok ()⟩ : Call) ∈ h) :
    (offloaded self d.channel d.method d.properties d.body).wp (lawRules .offload self d)
      (fun _ _ => True) h := by
  have hdone : ∀ {exc : Option Raised} {r : Except Raised Returned},
      (exc = none ∧ finish .offload ⟨.callback d.properties d.body, r⟩ = some (.ok ())) ∨
        (exc ≠ none ∧ ∃ x, finish .offload ⟨.callback d.properties d.body, r⟩ = some (.error x)) →
      (onDone self d.channel d.method d.properties d.body exc).wp (lawRules .offload self d)
        (fun _ _ => True) (h ++ [⟨.callback d.properties d.body, r⟩]) := by
    intro exc r hr
    refine onDone_lawful (by simp [hsub]) (hr.imp (And.imp_right ?_) (And.imp_right ?_))
    · exact fun hr => by simp [hr]
    · exact fun hr => by simp [hr]
  simp [offloaded, asks, started]
  refine ⟨⟨?_, ?_, ?_⟩, ?_, ?_⟩ <;> exact hdone (by simp [finish])

theorem offloadWrapper_lawful : (offloadWrapper ⟨self, true⟩ d.channel d.method d.properties
    d.body).wp (lawRules .offload self d) (fun _ _ => True) h := by
  have hdirect : ∀ {h' Q}, (∀ h'' r, Q h'' r) → Direct .offload h' →
      (internalWrapper self d.channel d.method d.properties d.body).wp (lawRules .offload self d)
        Q h' :=
    fun hQ hd => Program.wp_mono (fun h'' r _ => hQ h'' r) _ _
      (internalWrapper_lawful (by simp) hd)
  have hpre : (lawRules .offload self d).pre .work =
      fun h => Path.offload = .offload ∧ (⟨.submit, .ok ()⟩ : Call) ∈ h := rfl
  simp [offloadWrapper, asks, started, hpre]
  refine ⟨⟨hdirect (by simp) ?_, hdirect (by simp) ?_⟩, hdirect (by simp) ?_⟩
  · exact .of_submit (x := .exception) (by simp)
  · exact .of_submit (x := .exception) (by simp)
  · exact .of_acquire (x := .exception) (by simp)

/-- On the async path a nack or a publish may follow a raised callback or a
raised ack. -/
def Troubled (d : Delivery) (h : List Call) : Prop :=
  Failed .async h ∨ Ended h (.ack d.channel d.deliveryTag) (.error .exception)

theorem Troubled.mono {h' : List Call} (hs : h.Sublist h') (ht : Troubled d h) : Troubled d h' :=
  Or.imp (fun hf => hf.mono hs) (fun he => he.mono hs) ht

theorem publishPoison_lawful {q : String} (hq : d.poisonQueue self = some q)
    (hc : Completed .async h ∨ Failed .async h) (ht : Troubled d h) :
    (publishPoison d.message q).wp (lawRules .async self d) (fun h' _ => h.Sublist h') h := by
  simp [publishPoison, IncomingMessage.ack, Delivery.message, asks, Lawful, started, broker, finish,
    hq, Direct]
  exact ⟨ht, hc⟩

theorem handlerFailed_lawful (hc : Completed .async h ∨ Failed .async h) (ht : Troubled d h) :
    (handlerFailed self d.message).wp (lawRules .async self d) (fun _ _ => True) h := by
  have hnack : ∀ {h' requeue} {Q : List Call → Except Raised Unit → Prop}, h.Sublist h' →
      (∀ h'' r, Q h'' r) → (d.message.nack requeue).wp (lawRules .async self d) Q h' := by
    intro h' requeue Q hs hQ
    simp [IncomingMessage.nack, Delivery.message, asks, Lawful, started, Direct, hQ]
    exact ht.mono hs
  have hcfg : self.config.poisonQueue (retryAttemptFromHeaders d.message.headers) =
      d.poisonQueue self := rfl
  rcases hq : d.poisonQueue self with _ | q
  · simp [handlerFailed, Program.wp_ite, hcfg, hq]
    exact fun _ => ⟨fun _ => hnack (List.Sublist.refl h) (by simp),
      fun _ => hnack (List.Sublist.refl h) (by simp)⟩
  · simp [handlerFailed, Program.wp_ite, hcfg, hq]
    refine fun _ => Program.wp_mono (fun h' r hs => ?_) _ _ (publishPoison_lawful hq hc ht)
    rcases r with (_ | _) | settled
    · trivial
    · trivial
    · exact fun _ => ⟨fun _ => hnack hs (by simp), fun _ => hnack hs (by simp)⟩

theorem runHandler_lawful :
    (runHandler self d.message).wp (lawRules .async self d) (fun _ _ => True) h := by
  have hfail : ∀ {h'}, Completed .async h' ∨ Failed .async h' → Troubled d h' →
      (handlerFailed self d.message).wp (lawRules .async self d) (fun _ _ => True) h' :=
    handlerFailed_lawful
  -- the ack after a callback that completed, and the handler if it raises
  have hack : ∀ {h'} {Q : List Call → Except Raised Unit → Prop}, Completed .async h' →
      (∀ h'' r, (r = .error .exception → (handlerFailed self d.message).wp
        (lawRules .async self d) (fun _ _ => True) h'') → Q h'' r) →
      d.message.ack.wp (lawRules .async self d) Q h' := by
    intro h' Q hc hQ
    simp [IncomingMessage.ack, Delivery.message, asks, Lawful, started, hc]
    refine ⟨hQ _ _ (by simp), hQ _ _ fun _ => hfail ?_ ?_, hQ _ _ (by simp)⟩
    · exact Or.inl (hc.mono (List.sublist_append_left _ _))
    · exact Or.inr (by simp [broker])
  simp [runHandler, Program.wp_ite, asks, started]
  refine ⟨⟨fun _ => hack ?_ (by simp), ⟨fun _ => hack ?_ (by simp), hfail (.inr ?_) (.inl ?_)⟩,
    fun _ => hack ?_ (by simp)⟩, hfail (.inr ?_) (.inl ?_)⟩
  all_goals simp [finish]

end

/-! ## The paths -/

variable {path : Path} {self : Settings} {d : Delivery} {s : Handling}

theorem code_lawful (l : Job) (h : List Call) (hl : (lawRules path self d).pre l h) :
    (l.code self d).wp (lawRules path self d) (fun _ _ => True) h := by
  cases l with
  | direct => exact Listener.wp_direct (fun _ _ _ => id) (internalWrapper_lawful hl.1 hl.2)
  | offloading => obtain rfl : path = .offload := hl; exact offloadWrapper_lawful
  | task => obtain rfl : path = .async := hl; exact runHandler_lawful
  | work =>
    obtain ⟨rfl, hsub⟩ : path = .offload ∧ _ := hl
    exact offloaded_lawful hsub
  | scheduled s => exact Program.wp_mono (fun _ _ _ => trivial) _ _ (scheduled_lawful hl)

/-- **Every path keeps the rules**, from any answers and in any interleaving. -/
theorem deliveryCrew_kept (hs : (deliveryCrew path self d).Reach (answers anyAnswer) s) :
    Kept (lawRules path self d) (fun _ _ _ => True) path.job s := by
  refine crew_kept code_lawful ?_ hs
  cases path with
  | internal => exact ⟨by simp, Or.inl (by simp)⟩
  | offload => exact rfl
  | async => exact rfl

/-- What the broker is asked for is lawful after the calls before it. -/
theorem lawful_of_trace (hs : (deliveryCrew path self d).Reach (answers anyAnswer) s)
    {p q : List Call} {e : Call} (hst : s.trace = p ++ e :: q) {a : BrokerAction}
    (ha : asks e.op = some a) : Lawful path self d p a := by
  obtain ⟨h, hsub, hg, -⟩ := (deliveryCrew_kept hs).guarded p e q hst
  exact (hg a ha).mono hsub

end MqAdapters
