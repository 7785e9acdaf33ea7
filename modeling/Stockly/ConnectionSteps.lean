import Stockly.FPersistentConnection

/-!
# What each step of a connection leaves

Over an open connection a request never throws, so each of the functions that
send is a bulk of requests with consecutive numbers.  The restored state is
one such bulk: all listens, all puts in the order of their indices, and the
queue of disconnect actions.
-/

universe u v w

namespace FirebaseDatabase

namespace FPersistentConnection

variable {δ : Type u} {κ : Type v} {π : Type w}

abbrev Request (δ : Type u) (κ : Type v) (π : Type w) :=
  RequestAction δ π × Option (ResponseBlock κ π)

/-- The messages of requests which are sent one after the other. -/
def messages (first : ℕ) (requests : List (Request δ κ π)) :
    List (Message δ π) :=
  (requests.zipIdx first).map fun request => ⟨request.2, request.1.1⟩

/-- The blocks which wait for the answers to such requests. -/
def waiting (first : ℕ) (requests : List (Request δ κ π)) :
    List (ℕ × ResponseBlock κ π) :=
  (requests.zipIdx first).filterMap fun request =>
    request.1.2.map fun block => (request.2, block)

def record (self : FPersistentConnection δ κ π)
    (requests : List (Request δ κ π)) : FPersistentConnection δ κ π :=
  { self with
    requestNumber := self.requestNumber + requests.length
    sent := self.sent ++ messages self.requestNumber requests
    requestCBHash :=
      self.requestCBHash ++ waiting self.requestNumber requests }

@[simp] theorem messages_nil (first : ℕ) :
    messages first ([] : List (Request δ κ π)) = [] := rfl

@[simp] theorem messages_cons (first : ℕ) (request : Request δ κ π)
    (requests : List (Request δ κ π)) :
    messages first (request :: requests) =
      ⟨first, request.1⟩ :: messages (first + 1) requests := rfl

theorem messages_append (first : ℕ) (before after : List (Request δ κ π)) :
    messages first (before ++ after) =
      messages first before ++ messages (first + before.length) after := by
  simp [messages, List.zipIdx_append]

@[simp] theorem waiting_nil (first : ℕ) :
    waiting first ([] : List (Request δ κ π)) = [] := rfl

@[simp] theorem waiting_cons (first : ℕ) (request : Request δ κ π)
    (requests : List (Request δ κ π)) :
    waiting first (request :: requests) =
      ((request.2.map fun block => (first, block)).toList) ++
        waiting (first + 1) requests := by
  unfold waiting
  rw [List.zipIdx_cons, List.filterMap_cons]
  cases request.2 <;> rfl

theorem waiting_append (first : ℕ) (before after : List (Request δ κ π)) :
    waiting first (before ++ after) =
      waiting first before ++ waiting (first + before.length) after := by
  simp [waiting, List.zipIdx_append]

@[simp] theorem record_nil (self : FPersistentConnection δ κ π) :
    self.record [] = self := by
  simp [record]

@[simp] theorem record_record (self : FPersistentConnection δ κ π)
    (before after : List (Request δ κ π)) :
    (self.record before).record after = self.record (before ++ after) := by
  simp [record, messages_append, waiting_append, Nat.add_assoc]

/-! ## The functions that send -/

def listenRequest (listenSpec : FOutstandingQuery κ π) : Request δ κ π :=
  (.listen listenSpec.query.path
      (queriesOf listenSpec.query listenSpec.tagId),
    some (.listen listenSpec))

def putRequest (entry : ℕ × FOutstandingPut δ κ) : Request δ κ π :=
  (.put entry.2.request, some (.put entry.1 entry.2.onCompleteBlock))

def onDisconnectRequest (tuple : FTupleOnDisconnect δ κ) : Request δ κ π :=
  (.onDisconnect tuple.action tuple.pathString tuple.data,
    some (.onDisconnect tuple.onComplete))

theorem sendAction_eq (self : FPersistentConnection δ κ π)
    (hopen : self.realtime = some .connected) (action : RequestAction δ π)
    (onMessage : Option (ResponseBlock κ π)) :
    self.sendAction action onMessage =
      .ok (self.record [(action, onMessage)]) := by
  unfold sendAction record
  rw [hopen]
  cases onMessage <;> simp

/-- All of these listens have been sent. -/
def listensSent (self : FPersistentConnection δ κ π)
    (specs : List (FOutstandingQuery κ π)) : FPersistentConnection δ κ π :=
  { self.record (specs.map listenRequest) with
    unackedListensCount := self.unackedListensCount + specs.length }

theorem sendListen_eq (self : FPersistentConnection δ κ π)
    (hopen : self.realtime = some .connected)
    (listenSpec : FOutstandingQuery κ π) :
    self.sendListen listenSpec = .ok (self.listensSent [listenSpec]) := by
  unfold sendListen
  rw [sendAction_eq self hopen]
  rfl

theorem foldlM_sendListen {self : FPersistentConnection δ κ π}
    (hopen : self.realtime = some .connected)
    (specs : List (FOutstandingQuery κ π)) :
    specs.foldlM sendListen self = .ok (self.listensSent specs) := by
  induction specs generalizing self with
  | nil =>
      have hnothing : self.listensSent [] = self := by simp [listensSent]
      rw [hnothing]
      rfl
  | cons spec specs ih =>
      have hsplit : (self.listensSent [spec]).listensSent specs =
          self.listensSent (spec :: specs) := by
        have hrecord := record_record self [listenRequest spec]
          (specs.map listenRequest)
        rw [List.singleton_append, ← List.map_cons] at hrecord
        unfold listensSent
        rw [← hrecord]
        simp only [record, List.length_cons, List.length_nil,
          List.map_singleton, Nat.cast_add, Nat.cast_one, Nat.cast_zero]
        congr 1
        ring
      rw [List.foldlM_cons, sendListen_eq self hopen, ← hsplit]
      exact ih hopen

theorem foldlM_sendOnDisconnectAction (self : FPersistentConnection δ κ π)
    (hopen : self.realtime = some .connected)
    (tuples : List (FTupleOnDisconnect δ κ)) :
    tuples.foldlM sendOnDisconnectAction self =
      .ok (self.record (tuples.map onDisconnectRequest)) := by
  induction tuples generalizing self with
  | nil => simp only [List.foldlM_nil, List.map_nil, record_nil]; rfl
  | cons tuple tuples ih =>
      have hsend : self.sendOnDisconnectAction tuple =
          .ok (self.record [onDisconnectRequest tuple]) :=
        sendAction_eq self hopen _ _
      rw [List.foldlM_cons, hsend]
      refine (ih (self.record [onDisconnectRequest tuple]) hopen).trans ?_
      rw [record_record]
      rfl

/-- The put of an entry has been sent. -/
def sentEntry (entry : ℕ × FOutstandingPut δ κ) :
    ℕ × FOutstandingPut δ κ :=
  (entry.1, { entry.2 with sent := true })

theorem map_markSent_of_notMem {index : ℕ}
    {puts : List (ℕ × FOutstandingPut δ κ)}
    (hnotMem : index ∉ puts.map Prod.fst) :
    puts.map (markSent index) = puts := by
  conv_rhs => rw [← List.map_id puts]
  apply List.map_congr_left
  intro entry hentry
  have hne : entry.1 ≠ index := by
    rintro rfl
    exact hnotMem (List.mem_map_of_mem hentry)
  simp [markSent, hne]

/-- The put of an index in the middle, whose index is not found before it or
behind it. -/
theorem lookup_middle {entry : ℕ × FOutstandingPut δ κ}
    {before after : List (ℕ × FOutstandingPut δ κ)}
    (hbefore : entry.1 ∉ before.map Prod.fst) :
    (before ++ entry :: after).lookup entry.1 = some entry.2 := by
  have hnone : before.lookup entry.1 = none := by
    rw [KeyedList.lookup_eq_none_iff]
    intro other hother hkey
    exact hbefore (hkey ▸ List.mem_map_of_mem hother)
  rw [List.lookup_append, hnone, Option.none_or]
  exact List.lookup_cons_self

theorem sendPut_middle (self : FPersistentConnection δ κ π)
    (hopen : self.realtime = some .connected)
    (hconnected : self.connectionState = .connected)
    {entry : ℕ × FOutstandingPut δ κ}
    {before after : List (ℕ × FOutstandingPut δ κ)}
    (hputs : self.outstandingPuts = before ++ entry :: after)
    (hbefore : entry.1 ∉ before.map Prod.fst)
    (hafter : entry.1 ∉ after.map Prod.fst) :
    self.sendPut entry.1 =
      .ok { self.record [putRequest entry] with
        outstandingPuts := before ++ sentEntry entry :: after } := by
  have hsend : self.canSendWrites = true := by
    simp [canSendWrites, hconnected]
  have hmarked : (before ++ entry :: after).map (markSent entry.1) =
      before ++ sentEntry entry :: after := by
    rw [List.map_append, List.map_cons, map_markSent_of_notMem hbefore,
      map_markSent_of_notMem hafter]
    simp [markSent, sentEntry]
  unfold sendPut
  rw [if_pos hsend, hputs, lookup_middle hbefore]
  simp only [hmarked]
  rw [sendAction_eq { self with
    outstandingPuts := before ++ sentEntry entry :: after } hopen]
  rfl

theorem foldlM_sendPut (self : FPersistentConnection δ κ π)
    (before after : List (ℕ × FOutstandingPut δ κ))
    (hopen : self.realtime = some .connected)
    (hconnected : self.connectionState = .connected)
    (hputs : self.outstandingPuts = before ++ after)
    (hnodup : ((before ++ after).map Prod.fst).Nodup) :
    (after.map Prod.fst).foldlM sendPutIfOutstanding self =
      .ok { self.record (after.map putRequest) with
        outstandingPuts := before ++ after.map sentEntry } := by
  induction after generalizing self before with
  | nil =>
      simp only [List.map_nil, List.foldlM_nil, record_nil]
      rw [← hputs]
      rfl
  | cons entry after ih =>
      have hsplit := hnodup
      rw [List.map_append, List.map_cons, List.nodup_middle,
        List.nodup_cons, List.mem_append, not_or] at hsplit
      obtain ⟨⟨hbefore, hafter⟩, -⟩ := hsplit
      have hfound : (self.outstandingPuts.lookup entry.1).isSome = true := by
        rw [hputs, lookup_middle hbefore]
        rfl
      have hsend : self.sendPutIfOutstanding entry.1 =
          .ok { self.record [putRequest entry] with
            outstandingPuts := before ++ sentEntry entry :: after } := by
        unfold sendPutIfOutstanding
        rw [if_pos hfound,
          sendPut_middle self hopen hconnected hputs hbefore hafter]
      rw [List.map_cons, List.foldlM_cons, hsend]
      refine (ih { self.record [putRequest entry] with
          outstandingPuts := before ++ sentEntry entry :: after }
        (before ++ [sentEntry entry]) hopen hconnected ?_ ?_).trans ?_
      · simp
      · simpa [sentEntry] using hnodup
      · have hrecord := record_record self [putRequest entry]
          (after.map putRequest)
        rw [List.singleton_append, ← List.map_cons] at hrecord
        rw [← hrecord]
        simp [record]

/-! ## The restored state -/

/-- All outstanding puts have been sent. -/
def putsSent (self : FPersistentConnection δ κ π) :
    FPersistentConnection δ κ π :=
  { self.record (self.outstandingPuts.map putRequest) with
    outstandingPuts := self.outstandingPuts.map sentEntry }

def restored (self : FPersistentConnection δ κ π) :
    FPersistentConnection δ κ π :=
  { (self.listensSent (self.listens.map Prod.snd)).putsSent.record
      (self.onDisconnectQueue.map onDisconnectRequest) with
    onDisconnectQueue := [] }

/-- The keys of the puts are in order already. -/
theorem mergeSort_keys {puts : List (ℕ × FOutstandingPut δ κ)}
    (hputs : (puts.map Prod.fst).Pairwise (· < ·)) :
    (puts.map Prod.fst).mergeSort = puts.map Prod.fst := by
  apply List.mergeSort_of_pairwise
  exact hputs.imp fun hlt => by simpa using hlt.le

theorem restoreState_eq (self : FPersistentConnection δ κ π)
    (hopen : self.realtime = some .connected)
    (hconnected : self.connectionState = .connected)
    (hputs : (self.outstandingPuts.map Prod.fst).Pairwise (· < ·)) :
    self.restoreState = .ok self.restored := by
  have hsendPuts := foldlM_sendPut
    (self.listensSent (self.listens.map Prod.snd)) [] self.outstandingPuts
    hopen hconnected rfl (hputs.imp fun hlt => hlt.ne)
  have hsendQueue := foldlM_sendOnDisconnectAction
    (self.listensSent (self.listens.map Prod.snd)).putsSent
    hopen self.onDisconnectQueue
  unfold restoreState
  rw [if_pos hconnected, foldlM_sendListen hopen]
  change (self.outstandingPuts.map Prod.fst).mergeSort.foldlM
    sendPutIfOutstanding (self.listensSent (self.listens.map Prod.snd)) >>=
      _ = _
  rw [mergeSort_keys hputs, hsendPuts]
  change self.onDisconnectQueue.foldlM sendOnDisconnectAction
    (self.listensSent (self.listens.map Prod.snd)).putsSent >>= _ = _
  rw [hsendQueue]
  rfl

/-! ## Connecting -/

/-- A connection attempt is scheduled, unless a reason forbids it. -/
def scheduled (self : FPersistentConnection δ κ π) :
    FPersistentConnection δ κ π :=
  if self.shouldReconnect then
    { self with
      forceAuthTokenRefresh := false
      scheduledRetry := some self.forceAuthTokenRefresh }
  else self

theorem tryScheduleReconnect_eq {self : FPersistentConnection δ κ π}
    (hstate : self.connectionState = .disconnected) :
    self.tryScheduleReconnect = .ok self.scheduled := by
  unfold tryScheduleReconnect scheduled
  rw [if_pos hstate]
  split <;> rfl

def disconnected (self : FPersistentConnection δ κ π) :
    FPersistentConnection δ κ π :=
  self.dropRealtime.scheduled

theorem onDisconnect_eq (self : FPersistentConnection δ κ π) :
    self.onDisconnect = .ok self.disconnected := by
  unfold onDisconnect disconnected
  split
  next => exact tryScheduleReconnect_eq rfl
  next hreasons =>
    have hstill : ¬ self.dropRealtime.shouldReconnect := hreasons
    unfold scheduled
    rw [if_neg hstill]

theorem closeRealtime_eq (self : FPersistentConnection δ κ π)
    (hopen : self.realtime.isSome) :
    self.closeRealtime = .ok self.disconnected := by
  unfold closeRealtime
  split
  next hnone => simp [hnone] at hopen
  next => exact onDisconnect_eq self

theorem realtime_disconnected (self : FPersistentConnection δ κ π) :
    self.disconnected.realtime = none := by
  unfold disconnected scheduled
  split <;> rfl

theorem interruptForReason_of_some {self : FPersistentConnection δ κ π}
    (hopen : self.realtime.isSome) (reason : InterruptReason) :
    self.interruptForReason reason =
      .ok (self.interrupted reason).disconnected := by
  unfold interruptForReason
  split
  next =>
    rw [onDisconnect_eq]
    have hnone := realtime_disconnected (self.interrupted reason)
    change Except.ok { (self.interrupted reason).disconnected with
      realtime := none } = _
    rw [← hnone]
  next hnone => simp [hnone] at hopen

/-- The attempt which is scheduled is given up. -/
def givenUp (self : FPersistentConnection δ κ π) (reason : InterruptReason) :
    FPersistentConnection δ κ π :=
  { (self.interrupted reason).inState .disconnected with
    scheduledRetry := none }

theorem interruptForReason_of_none {self : FPersistentConnection δ κ π}
    (hclosed : self.realtime = none) (reason : InterruptReason) :
    self.interruptForReason reason = .ok (self.givenUp reason) := by
  unfold interruptForReason
  split
  next hsome => rw [hclosed] at hsome; contradiction
  next => rfl

def authSent (self : FPersistentConnection δ κ π) (credential : String)
    (restoreStateAfterComplete : Bool) : FPersistentConnection δ κ π :=
  self.record
    [(.auth credential, some (.auth restoreStateAfterComplete))]

theorem sendAuth_eq (self : FPersistentConnection δ κ π)
    (hopen : self.realtime = some .connected)
    (hconnected : self.isConnected) {credential : String}
    (htoken : self.authToken = some credential)
    (restoreStateAfterComplete : Bool) :
    self.sendAuthAndRestoreStateAfterComplete restoreStateAfterComplete =
      .ok (self.authSent credential restoreStateAfterComplete) := by
  unfold sendAuthAndRestoreStateAfterComplete
  rw [if_pos hconnected, htoken]
  exact sendAction_eq self hopen _ _

/-- The first greeting is answered with statistics. -/
def greeted (self : FPersistentConnection δ κ π) :
    FPersistentConnection δ κ π :=
  self.opened.record
    (if self.firstConnection then [(.stats, some .stats)] else [])

/-- A token is sent first, and the state is restored when it is accepted. -/
def authStarted (self : FPersistentConnection δ κ π) :
    FPersistentConnection δ κ π :=
  match self.authToken with
  | none => (self.inState .connected).restored
  | some credential =>
      (self.inState .authenticating).authSent credential true

def ready (self : FPersistentConnection δ κ π) :
    FPersistentConnection δ κ π :=
  { self.greeted.authStarted with firstConnection := false }

theorem restoreAuth_eq (self : FPersistentConnection δ κ π)
    (hopen : self.realtime = some .connected)
    (hstate : self.connectionState = .connecting)
    (hputs : (self.outstandingPuts.map Prod.fst).Pairwise (· < ·)) :
    self.restoreAuth = .ok self.authStarted := by
  unfold restoreAuth authStarted
  rw [if_pos hstate]
  cases htoken : self.authToken with
  | none =>
      exact restoreState_eq (self.inState .connected) hopen rfl hputs
  | some credential =>
      exact sendAuth_eq (self.inState .authenticating) hopen
        (by simp [isConnected, inState]) htoken true

theorem onHandshake_eq {self : FPersistentConnection δ κ π}
    (hopening : self.realtime = some .connecting)
    (hstate : self.connectionState = .connecting)
    (hputs : (self.outstandingPuts.map Prod.fst).Pairwise (· < ·)) :
    self.onHandshake = .ok self.ready := by
  have hstats : self.opened.sendStatsIfFirst = .ok self.greeted := by
    unfold sendStatsIfFirst greeted
    have hsame : self.opened.firstConnection = self.firstConnection := rfl
    rw [hsame]
    cases self.firstConnection with
    | true =>
        rw [if_pos rfl, if_pos rfl]
        exact sendAction_eq self.opened rfl _ _
    | false => simp
  unfold onHandshake
  rw [hopening]
  unfold onReady
  rw [hstats]
  change self.greeted.restoreAuth >>= _ = _
  rw [restoreAuth_eq self.greeted rfl hstate hputs]
  rfl

/-! ## Answers -/

def authAnswered (self : FPersistentConnection δ κ π)
    (restoreStateAfterComplete : Bool) (response : Response) :
    FPersistentConnection δ κ π :=
  if response.status = some statusOk then
    if restoreStateAfterComplete then (self.inState .connected).restored
    else self.inState .connected
  else (self.inState .connected).tokenRejected.disconnected

theorem onAuthResponse_eq (self : FPersistentConnection δ κ π)
    (hopen : self.realtime = some .connected)
    (hputs : (self.outstandingPuts.map Prod.fst).Pairwise (· < ·))
    (restoreStateAfterComplete : Bool) (response : Response) :
    self.onAuthResponse restoreStateAfterComplete response =
      .ok (self.authAnswered restoreStateAfterComplete response) := by
  unfold onAuthResponse authAnswered
  by_cases hstatus : response.status = some statusOk
  · simp only [hstatus, if_true]
    cases restoreStateAfterComplete with
    | true =>
        exact restoreState_eq (self.inState .connected) hopen rfl
          hputs
    | false => rfl
  · simp only [hstatus, if_false]
    apply closeRealtime_eq (self.inState .connected).tokenRejected
    change self.realtime.isSome = true
    rw [hopen]
    rfl

section Listens

variable [DecidableEq π]

def setCount (self : FPersistentConnection δ κ π) (count : ℤ) :
    FPersistentConnection δ κ π :=
  { self with unackedListensCount := count }

def listenAnswered (self : FPersistentConnection δ κ π)
    (listenSpec : FOutstandingQuery κ π) (response : Response) :
    FPersistentConnection δ κ π :=
  let reported := (self.listenReported listenSpec response).setCount
    (self.unackedListensCount - 1)
  if self.unackedListensCount = 1 then reported.ackPuts else reported

theorem removeListen_eq (self : FPersistentConnection δ κ π)
    {query : FQuerySpec π} (hshape : query.hasShape = true) :
    self.removeListen query = .ok (self.listenRemoved query) :=
  if_pos hshape

theorem onListenResponse_eq (self : FPersistentConnection δ κ π)
    (hcount : 1 ≤ self.unackedListensCount)
    {listenSpec : FOutstandingQuery κ π}
    (hshape : self.isCurrent listenSpec = true →
      listenSpec.query.hasShape = true) (response : Response) :
    self.onListenResponse listenSpec response =
      .ok (self.listenAnswered listenSpec response) := by
  have hremoved : ∃ removed,
      self.removeFailed listenSpec response = .ok removed := by
    unfold removeFailed
    split
    next hfailed =>
      rw [Bool.and_eq_true] at hfailed
      exact ⟨_, self.removeListen_eq (hshape hfailed.1)⟩
    next => exact ⟨_, rfl⟩
  obtain ⟨removed, hremoved⟩ := hremoved
  have hnonneg : ¬ self.unackedListensCount - 1 < 0 := by omega
  have hlast : self.unackedListensCount - 1 = 0 ↔
      self.unackedListensCount = 1 := by omega
  unfold onListenResponse listenAnswered
  simp only [hremoved, hnonneg, hlast, if_false]
  split <;> rfl

/-! ## The calls of the repository -/

theorem listen_eq {self : FPersistentConnection δ κ π}
    (hopen : self.isConnected → self.realtime = some .connected)
    {query : FQuerySpec π} (hnew : (self.listens.lookup query).isSome = false)
    (hshape : query.hasShape = true) (tagId : Option ℕ) (onComplete : κ) :
    self.listen query tagId onComplete =
      .ok (if self.isConnected then
          (self.listenAdded query tagId onComplete).listensSent
            [⟨self.allocated, query, tagId, onComplete⟩]
        else self.listenAdded query tagId onComplete) := by
  unfold listen
  rw [if_neg (by simp [hnew]), if_neg (by simp [hshape])]
  split
  next hconnected =>
    exact sendListen_eq (self.listenAdded query tagId onComplete)
      (hopen hconnected) _
  next => rfl

theorem unlisten_eq {self : FPersistentConnection δ κ π}
    (hopen : self.isConnected → self.realtime = some .connected)
    {query : FQuerySpec π} (hshape : query.hasShape = true)
    (tagId : Option ℕ) :
    self.unlisten query tagId =
      .ok (if (self.listens.lookup query).isSome && self.isConnected then
          (self.listenRemoved query).record
            [(.unlisten query.path (queriesOf query tagId), none)]
        else self.listenRemoved query) := by
  unfold unlisten
  rw [self.removeListen_eq hshape]
  dsimp only
  split
  next hconnected =>
    rw [Bool.and_eq_true] at hconnected
    exact sendAction_eq (self.listenRemoved query)
      (hopen hconnected.2) _ _
  next => rfl

end Listens

def putStarted (self : FPersistentConnection δ κ π) (request : PutRequest δ)
    (onComplete : κ) : FPersistentConnection δ κ π :=
  { (self.putAdded request onComplete).record
      [putRequest (self.putCounter, ⟨request, onComplete, false⟩)] with
    outstandingPuts := self.outstandingPuts ++
      [(self.putCounter, ⟨request, onComplete, true⟩)] }

theorem putInternal_eq {self : FPersistentConnection δ κ π}
    (hopen : self.canSendWrites → self.realtime = some .connected)
    (hnew : self.putCounter ∉ self.outstandingPuts.map Prod.fst)
    (request : PutRequest δ) (onComplete : κ) :
    self.putInternal request onComplete =
      .ok (if self.canSendWrites then self.putStarted request onComplete
        else self.putAdded request onComplete) := by
  unfold putInternal
  split
  next hconnected =>
    have hstate : self.connectionState = .connected := by
      simpa [canSendWrites] using hconnected
    have hputs : (self.putAdded request onComplete).outstandingPuts =
        self.outstandingPuts ++
          (self.putCounter, ⟨request, onComplete, false⟩) :: [] := rfl
    exact sendPut_middle (self.putAdded request onComplete)
      (hopen hconnected) hstate hputs hnew (by simp)
  next => rfl

theorem onDisconnectAction_eq {self : FPersistentConnection δ κ π}
    (hopen : self.canSendWrites → self.realtime = some .connected)
    (tuple : FTupleOnDisconnect δ κ) :
    self.onDisconnectAction tuple =
      .ok (if self.canSendWrites then
          self.record [onDisconnectRequest tuple]
        else
          { self with
            onDisconnectQueue := self.onDisconnectQueue ++ [tuple] }) := by
  unfold onDisconnectAction
  split
  next hconnected => exact sendAction_eq self (hopen hconnected) _ _
  next => rfl

def tokenSent (self : FPersistentConnection δ κ π) (token : Option String) :
    FPersistentConnection δ κ π :=
  match token with
  | none => (self.withToken none).record [(.unauth, none)]
  | some credential =>
      (self.withToken (some credential)).authSent credential false

theorem refreshAuthToken_eq {self : FPersistentConnection δ κ π}
    (hopen : self.isConnected → self.realtime = some .connected)
    (token : Option String) :
    self.refreshAuthToken token =
      .ok (if self.isConnected then self.tokenSent token
        else self.withToken token) := by
  unfold refreshAuthToken
  split
  next hconnected =>
    cases token with
    | none =>
        rw [if_neg (by simp)]
        exact sendAction_eq (self.withToken none)
          (hopen hconnected) _ _
    | some credential =>
        rw [if_pos (by simp)]
        exact sendAuth_eq (self.withToken (some credential))
          (hopen hconnected) hconnected rfl false
  next => rfl

/-! ## The step which no failure ends -/

def afterFetch (self : FPersistentConnection δ κ π) (attempt : ℕ)
    (token : Option (Option String)) : FPersistentConnection δ κ π :=
  if attempt = self.currentFetchTokenAttempt then
    match token with
    | none => ((self.fetched attempt).inState .disconnected).scheduled
    | some token =>
        if self.connectionState = .gettingToken then
          { ((self.fetched attempt).inState .connecting).withToken token with
            realtime := some .connecting }
        else self.fetched attempt
  else self.fetched attempt

theorem onFetchToken_eq {self : FPersistentConnection δ κ π} {attempt : ℕ}
    (hfetching : attempt = self.currentFetchTokenAttempt →
      self.connectionState = .gettingToken ∨
        self.connectionState = .disconnected)
    (token : Option (Option String)) :
    self.onFetchToken attempt token = .ok (self.afterFetch attempt token) := by
  unfold onFetchToken afterFetch
  by_cases hcurrent : attempt = self.currentFetchTokenAttempt
  · simp only [hcurrent, if_true]
    cases token with
    | none => exact tryScheduleReconnect_eq rfl
    | some token =>
        rcases hfetching hcurrent with hgetting | hstopped
        · simp only [hgetting, if_true]
          have hstate : (self.fetched
              self.currentFetchTokenAttempt).connectionState =
                .gettingToken := hgetting
          unfold openNetworkConnectionWithToken
          rw [if_pos hstate]
          rfl
        · simp [hstopped]
  · simp [hcurrent]

def afterRetry (self : FPersistentConnection δ κ π) :
    FPersistentConnection δ κ π :=
  { self.inState .gettingToken with
    scheduledRetry := none
    currentFetchTokenAttempt := self.currentFetchTokenAttempt + 1
    fetches := self.fetches ++ [self.currentFetchTokenAttempt + 1] }

def afterInterrupt (self : FPersistentConnection δ κ π)
    (reason : InterruptReason) : FPersistentConnection δ κ π :=
  if self.realtime.isSome then (self.interrupted reason).disconnected
  else self.givenUp reason

theorem interruptForReason_eq (self : FPersistentConnection δ κ π)
    (reason : InterruptReason) :
    self.interruptForReason reason = .ok (self.afterInterrupt reason) := by
  unfold afterInterrupt
  split
  next hopen => exact interruptForReason_of_some hopen reason
  next hclosed =>
    exact interruptForReason_of_none (by simpa using hclosed) reason

variable [DecidableEq π]

def responded (self : FPersistentConnection δ κ π)
    (block : ResponseBlock κ π) (response : Response) :
    FPersistentConnection δ κ π :=
  match block with
  | .stats => self
  | .auth restoreStateAfterComplete =>
      self.authAnswered restoreStateAfterComplete response
  | .put index onComplete => self.onPutResponse index onComplete response
  | .listen listenSpec => self.listenAnswered listenSpec response
  | .onDisconnect callback =>
      { self with
        calls := self.calls ++
          [.onDisconnect callback response.status response.data] }

def afterResponse (self : FPersistentConnection δ κ π) (requestNumber : ℕ)
    (response : Response) : FPersistentConnection δ κ π :=
  match self.requestCBHash.lookup requestNumber with
  | none => self
  | some block => (self.answered requestNumber).responded block response

/-- The next state of a consistent connection. -/
def after (self : FPersistentConnection δ κ π) :
    Event δ κ π → FPersistentConnection δ κ π
  | .listen query tagId onComplete =>
      if self.isConnected then
        (self.listenAdded query tagId onComplete).listensSent
          [⟨self.allocated, query, tagId, onComplete⟩]
      else self.listenAdded query tagId onComplete
  | .unlisten query tagId =>
      if (self.listens.lookup query).isSome && self.isConnected then
        (self.listenRemoved query).record
          [(.unlisten query.path (queriesOf query tagId), none)]
      else self.listenRemoved query
  | .put request onComplete =>
      if self.canSendWrites then self.putStarted request onComplete
      else self.putAdded request onComplete
  | .onDisconnectAction tuple =>
      if self.canSendWrites then self.record [onDisconnectRequest tuple]
      else
        { self with onDisconnectQueue := self.onDisconnectQueue ++ [tuple] }
  | .refreshAuthToken token =>
      if self.isConnected then self.tokenSent token else self.withToken token
  | .purgeOutstandingWrites => self.purgeOutstandingWrites
  | .interrupt reason => self.afterInterrupt reason
  | .resume reason =>
      if (self.resumed reason).shouldReconnect &&
          self.connectionState = .disconnected then
        (self.resumed reason).scheduled
      else self.resumed reason
  | .reconnectNow =>
      if self.connectionState = .disconnected then self.scheduled else self
  | .retry => self.afterRetry
  | .fetchToken attempt token => self.afterFetch attempt token
  | .handshake =>
      if self.realtime = some .connecting then self.ready else self
  | .response requestNumber response =>
      self.afterResponse requestNumber response
  | .authRevoked =>
      if self.realtime.isSome then self.tokenRejected.disconnected
      else self.tokenRejected
  | .listenRevoked path => self.onListenRevoked path
  | .shutdown => self.afterInterrupt .serverKill
  | .connectionLost => self.disconnected

end FPersistentConnection

end FirebaseDatabase
