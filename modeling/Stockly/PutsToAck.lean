import Stockly.PutCallbacks

/-!
# Puts which wait for listens

A put which is answered while listens are not is called with the answer to
the last of these.  Losing the connection forgets the unanswered listens but
not the puts, so that puts are left which no answer calls any more.
-/

universe u v w

namespace FirebaseDatabase

namespace FPersistentConnection

variable {δ : Type u} {κ : Type v} {π : Type w}

/-- Nothing is listened for, no listen is unanswered, and these puts wait. -/
structure Stranded (puts : List (FTupleCallbackStatus κ))
    (connection : FPersistentConnection δ κ π) : Prop where
  listens_eq : connection.listens = []
  count_eq : connection.unackedListensCount = 0
  putsToAck_eq : connection.putsToAck = puts

/-- Only a new listen or a purge lets such puts be called. -/
def releases : Event δ κ π → Bool
  | .listen _ _ _ => true
  | .purgeOutstandingWrites => true
  | _ => false

variable {self : FPersistentConnection δ κ π}
  {puts : List (FTupleCallbackStatus κ)}

theorem Stranded.of_same (hstranded : Stranded puts self)
    {next : FPersistentConnection δ κ π}
    (hlistens : next.listens = self.listens)
    (hcount : next.unackedListensCount = self.unackedListensCount)
    (hacks : next.putsToAck = self.putsToAck) : Stranded puts next where
  listens_eq := hlistens.trans hstranded.listens_eq
  count_eq := hcount.trans hstranded.count_eq
  putsToAck_eq := hacks.trans hstranded.putsToAck_eq

theorem Stranded.scheduled (hstranded : Stranded puts self) :
    Stranded puts self.scheduled := by
  unfold FPersistentConnection.scheduled
  split
  next => exact hstranded.of_same rfl rfl rfl
  next => exact hstranded

theorem Stranded.disconnected (hstranded : Stranded puts self) :
    Stranded puts self.disconnected := by
  have hdropped : Stranded puts self.dropRealtime :=
    ⟨hstranded.listens_eq, rfl, hstranded.putsToAck_eq⟩
  exact hdropped.scheduled

theorem Stranded.record (hstranded : Stranded puts self)
    (requests : List (Request δ κ π)) :
    Stranded puts (self.record requests) :=
  hstranded.of_same rfl rfl rfl

theorem Stranded.inState (hstranded : Stranded puts self)
    (state : ConnectionState) : Stranded puts (self.inState state) :=
  hstranded.of_same rfl rfl rfl

theorem Stranded.restored (hstranded : Stranded puts self) :
    Stranded puts self.restored := by
  have hsent : Stranded puts
      (self.listensSent (self.listens.map Prod.snd)) := by
    constructor
    · exact hstranded.listens_eq
    · unfold listensSent
      simp [hstranded.listens_eq, hstranded.count_eq]
    · exact hstranded.putsToAck_eq
  have hputs : Stranded puts
      (self.listensSent (self.listens.map Prod.snd)).putsSent :=
    hsent.of_same rfl rfl rfl
  exact (hputs.record (self.onDisconnectQueue.map
    onDisconnectRequest)).of_same rfl rfl rfl

theorem Stranded.ready (hstranded : Stranded puts self) :
    Stranded puts self.ready := by
  have hgreeted : Stranded puts self.greeted :=
    hstranded.of_same rfl rfl rfl
  have hstarted : Stranded puts self.greeted.authStarted := by
    unfold authStarted
    split
    next => exact (hgreeted.inState .connected).restored
    next => exact (hgreeted.inState .authenticating).record _
  exact ⟨hstarted.listens_eq, hstarted.count_eq, hstarted.putsToAck_eq⟩

theorem Stranded.authAnswered (hstranded : Stranded puts self)
    (restoreStateAfterComplete : Bool) (response : Response) :
    Stranded puts (self.authAnswered restoreStateAfterComplete response) := by
  have hconnected := hstranded.inState .connected
  unfold FPersistentConnection.authAnswered
  split
  next =>
    split
    next => exact hconnected.restored
    next => exact hconnected
  next =>
    have hrejected : Stranded puts (self.inState .connected).tokenRejected :=
      hstranded.of_same rfl rfl rfl
    exact hrejected.disconnected

theorem Stranded.afterInterrupt (hstranded : Stranded puts self)
    (reason : InterruptReason) :
    Stranded puts (self.afterInterrupt reason) := by
  have hinterrupted : Stranded puts (self.interrupted reason) :=
    hstranded.of_same rfl rfl rfl
  unfold FPersistentConnection.afterInterrupt
  split
  next => exact hinterrupted.disconnected
  next => exact hstranded.of_same rfl rfl rfl

theorem Stranded.afterFetch (hstranded : Stranded puts self) (attempt : ℕ)
    (token : Option (Option String)) :
    Stranded puts (self.afterFetch attempt token) := by
  have hfetched : Stranded puts (self.fetched attempt) :=
    hstranded.of_same rfl rfl rfl
  unfold FPersistentConnection.afterFetch
  split
  next =>
    cases token with
    | none => exact (hfetched.inState .disconnected).scheduled
    | some token =>
        dsimp only
        split
        next => exact hfetched.of_same rfl rfl rfl
        next => exact hfetched
  next => exact hfetched

/-- No answer is one to a listen, so a put is called at once and the waiting
ones are left alone. -/
theorem Stranded.onPutResponse (hstranded : Stranded puts self) (index : ℕ)
    (onComplete : κ) (response : Response) :
    Stranded puts (self.onPutResponse index onComplete response) := by
  unfold FPersistentConnection.onPutResponse
  rw [if_pos hstranded.count_eq]
  split
  next => exact hstranded.of_same rfl rfl rfl
  next => exact hstranded

section Listens

variable [DecidableEq π]

theorem Stranded.responded (hstranded : Stranded puts self)
    (hself : self.Consistent) {number : ℕ} {block : ResponseBlock κ π}
    (hlookup : self.requestCBHash.lookup number = some block)
    (response : Response) :
    Stranded puts ((self.answered number).responded block response) := by
  have hanswered : Stranded puts (self.answered number) :=
    hstranded.of_same rfl rfl rfl
  cases block with
  | stats => exact hanswered
  | auth restore => exact hanswered.authAnswered restore response
  | put index onComplete =>
      exact hanswered.onPutResponse index onComplete response
  | listen listenSpec =>
      have hcount := hself.requests.one_le hlookup rfl
      rw [hstranded.count_eq] at hcount
      contradiction
  | onDisconnect callback =>
      exact hstranded.of_same rfl rfl rfl

theorem Stranded.after (hstranded : Stranded puts self)
    (hself : self.Consistent) {event : Event δ κ π}
    (hreleases : releases event = false) :
    Stranded puts (self.after event) := by
  cases event with
  | listen query tagId onComplete => contradiction
  | unlisten query tagId =>
      have hremoved : Stranded puts (self.listenRemoved query) := by
        refine ⟨?_, hstranded.count_eq, hstranded.putsToAck_eq⟩
        simp [listenRemoved, hstranded.listens_eq]
      simp only [FPersistentConnection.after]
      split
      next => exact hremoved.record _
      next => exact hremoved
  | put request onComplete =>
      simp only [FPersistentConnection.after]
      split
      next => exact hstranded.of_same rfl rfl rfl
      next => exact hstranded.of_same rfl rfl rfl
  | onDisconnectAction tuple =>
      simp only [FPersistentConnection.after]
      split
      next => exact hstranded.record _
      next => exact hstranded.of_same rfl rfl rfl
  | refreshAuthToken token =>
      have hwith : ∀ token, Stranded puts (self.withToken token) :=
        fun token => hstranded.of_same rfl rfl rfl
      simp only [FPersistentConnection.after]
      split
      next =>
        cases token with
        | none => exact (hwith none).record _
        | some credential => exact (hwith (some credential)).record _
      next => exact hwith token
  | purgeOutstandingWrites => contradiction
  | interrupt reason => exact hstranded.afterInterrupt reason
  | resume reason =>
      have hresumed : Stranded puts (self.resumed reason) :=
        hstranded.of_same rfl rfl rfl
      simp only [FPersistentConnection.after]
      split
      next => exact hresumed.scheduled
      next => exact hresumed
  | reconnectNow =>
      simp only [FPersistentConnection.after]
      split
      next => exact hstranded.scheduled
      next => exact hstranded
  | retry =>
      exact hstranded.of_same rfl rfl rfl
  | fetchToken attempt token => exact hstranded.afterFetch attempt token
  | handshake =>
      simp only [FPersistentConnection.after]
      split
      next => exact hstranded.ready
      next => exact hstranded
  | response number response =>
      simp only [FPersistentConnection.after, afterResponse]
      split
      next => exact hstranded
      next block hlookup => exact hstranded.responded hself hlookup response
  | authRevoked =>
      have hrejected : Stranded puts self.tokenRejected :=
        hstranded.of_same rfl rfl rfl
      simp only [FPersistentConnection.after]
      split
      next => exact hrejected.disconnected
      next => exact hrejected
  | listenRevoked path =>
      refine ⟨?_, hstranded.count_eq, hstranded.putsToAck_eq⟩
      simp [FPersistentConnection.after, onListenRevoked,
        hstranded.listens_eq]
  | shutdown => exact hstranded.afterInterrupt .serverKill
  | connectionLost => exact hstranded.disconnected

/-- A put which is stranded stays so, whatever the server answers and however
often the connection is made anew. -/
theorem putsToAck_of_stranded {before rest : List (Event δ κ π)}
    {outcome : Except ConnectionFailure (FPersistentConnection δ κ π)}
    (hbefore : (machine δ κ π).run (Except.ok init) before =
      some (Except.ok self))
    (hlistens : self.listens = []) (hcount : self.unackedListensCount = 0)
    (hrest : ∀ event ∈ rest, releases event = false)
    (hrun : (machine δ κ π).run (Except.ok self) rest = some outcome) :
    ∃ next, outcome = Except.ok next ∧ next.putsToAck = self.putsToAck := by
  obtain ⟨start, hstart, hconsistent⟩ := consistent_init.run hbefore
  obtain rfl := Except.ok.inj hstart
  have hinvariant : ∃ next, outcome = Except.ok next ∧ next.Consistent ∧
      Stranded self.putsToAck next := by
    apply EventMachine.invariant_run_on _
      ⟨self, rfl, hconsistent, hlistens, hcount, rfl⟩ hrest hrun
    rintro _ event next ⟨middle, rfl, hmiddle, hstranded⟩ hevent hstep
    obtain ⟨hpossible, rfl⟩ := hmiddle.step_iff.mp hstep
    exact ⟨_, rfl, hmiddle.after hpossible, hstranded.after hmiddle hevent⟩
  obtain ⟨next, houtcome, -, hstranded⟩ := hinvariant
  exact ⟨next, houtcome, hstranded.putsToAck_eq⟩

/-- A put is answered before the listen, which is removed, and then the
connection is lost. -/
def listenLost : List (Event ℕ String ℕ) :=
  [.resume .waitingForOpen, .retry, .fetchToken 1 (some none), .handshake,
    .listen ⟨["stocks"], .defaultInstance 0⟩ none "listen",
    .put ⟨.put, "stocks/AAPL", 1, none⟩ "first",
    .response 3 ⟨some "ok", none⟩, .unlisten ⟨["stocks"], .defaultInstance 0⟩ none,
    .connectionLost]

/-- A later put is answered over the next connection. -/
def laterPut : List (Event ℕ String ℕ) :=
  [.retry, .fetchToken 2 (some none), .handshake,
    .put ⟨.put, "stocks/AAPL", 2, none⟩ "second",
    .response 5 ⟨some "ok", none⟩]

theorem putsToAck_of_listenLost :
    ∃ next, (machine ℕ String ℕ).run (Except.ok init)
        (listenLost ++ laterPut) = some (Except.ok next) ∧
      next.called = {"second"} ∧ next.waitingToAck = {"first"} := by
  have hfirst : init.AllPossible listenLost := by decide
  have hthen : (listenLost.foldl FPersistentConnection.after
      init).AllPossible laterPut := by decide
  have hbefore := consistent_init.run_eq hfirst
  obtain ⟨start, hstart, hconsistent⟩ := consistent_init.run hbefore
  obtain rfl := Except.ok.inj hstart
  have hrun := hconsistent.run_eq hthen
  obtain ⟨next, hnext, hacks⟩ := putsToAck_of_stranded hbefore rfl rfl
    (by decide) hrun
  refine ⟨next, ?_, ?_, ?_⟩
  · rw [EventMachine.run_trans hbefore hrun, hnext]
  · rw [← Except.ok.inj hnext]
    rfl
  · unfold waitingToAck
    rw [hacks]
    rfl

end Listens

end FPersistentConnection

end FirebaseDatabase
