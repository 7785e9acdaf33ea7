import Stockly.EventMachine
import Stockly.FPath
import Stockly.KeyedList
import Mathlib.Data.Finset.Basic
import Mathlib.Data.List.Sort

/-!
# The connection to the database

A repository speaks to the server over one connection, which is opened again
whenever it is lost.  Its listens and the puts which the server has not
answered are kept here, and they are sent again after each reconnection.

A connection is driven by events: the calls of the repository, the token
provider, the retry timer and what comes from the network.  All of them run
on one queue.  What an event sends is appended to `sent`, and the blocks of
the repository which it runs are appended to `calls`.
-/

universe u v w

namespace FirebaseDatabase

inductive ConnectionState where
  | disconnected
  | gettingToken
  | connecting
  | authenticating
  | connected
deriving DecidableEq, Repr

/-- An `FConnection` which has not been closed. -/
inductive RealtimeState where
  | connecting
  | connected
deriving DecidableEq, Repr

inductive InterruptReason where
  | serverKill
  | waitingForOpen
  | repoInterrupt
deriving DecidableEq, Repr

inductive PutAction where
  | put
  | merge
deriving DecidableEq, Repr

inductive DisconnectAction where
  | put
  | merge
  | cancel
deriving DecidableEq, Repr

/-- The values are those of the bounds, of the limit and of the index. -/
structure FQueryParams (π : Type w) where
  hasStart : Bool
  hasEnd : Bool
  limitSet : Bool
  priorityIndexed : Bool
  values : π
deriving DecidableEq

namespace FQueryParams

variable {π : Type w}

def defaultInstance (values : π) : FQueryParams π :=
  { hasStart := false, hasEnd := false, limitSet := false
    priorityIndexed := true, values := values }

def loadsAllData (params : FQueryParams π) : Bool :=
  !(params.hasStart || params.hasEnd || params.limitSet)

def isDefault (params : FQueryParams π) : Bool :=
  params.loadsAllData && params.priorityIndexed

end FQueryParams

structure FQuerySpec (π : Type w) where
  path : FPath String
  params : FQueryParams π
deriving DecidableEq

/-- What the connection asserts of a query: a complete one is the default. -/
def FQuerySpec.hasShape {π : Type w} (query : FQuerySpec π) : Bool :=
  query.params.isDefault || !query.params.loadsAllData

/-- Only a transaction has a hash. -/
structure PutRequest (δ : Type u) where
  action : PutAction
  path : String
  data : δ
  hash : Option String
deriving DecidableEq

structure FOutstandingPut (δ : Type u) (κ : Type v) where
  request : PutRequest δ
  onCompleteBlock : κ
  sent : Bool

/-- The address tells a listen from another one for the same query. -/
structure FOutstandingQuery (κ : Type v) (π : Type w) where
  address : ℕ
  query : FQuerySpec π
  tagId : Option ℕ
  onComplete : κ

structure FTupleOnDisconnect (δ : Type u) (κ : Type v) where
  action : DisconnectAction
  pathString : String
  data : Option δ
  onComplete : κ

structure FTupleCallbackStatus (κ : Type v) where
  block : κ
  status : Option String
  errorReason : Option String

/-- A query goes with its parameters only if it has a tag. -/
inductive RequestAction (δ : Type u) (π : Type w) where
  | stats
  | auth (credential : String)
  | unauth
  | listen (path : FPath String) (queries : Option (FQueryParams π × ℕ))
  | unlisten (path : FPath String) (queries : Option (FQueryParams π × ℕ))
  | put (request : PutRequest δ)
  | onDisconnect (action : DisconnectAction) (path : String)
      (data : Option δ)

structure Message (δ : Type u) (π : Type w) where
  requestNumber : ℕ
  action : RequestAction δ π

structure Response where
  status : Option String
  data : Option String

/-- What runs when a request is answered. -/
inductive ResponseBlock (κ : Type v) (π : Type w) where
  | stats
  | auth (restoreStateAfterComplete : Bool)
  | put (index : ℕ) (onComplete : κ)
  | listen (listenSpec : FOutstandingQuery κ π)
  | onDisconnect (callback : κ)

inductive BlockCall (κ : Type v) where
  | put (block : κ) (status errorReason : Option String)
  | listen (block : κ) (status : Option String)
  | onDisconnect (block : κ) (status errorReason : Option String)

inductive ConnectionFailure where
  | invalidConnectionState
  | assertion (text : String)
deriving DecidableEq, Repr

/-- A retry which is scheduled has taken along whether the token must be
refreshed; a fetch which is under way has the number of its attempt. -/
structure FPersistentConnection (δ : Type u) (κ : Type v) (π : Type w) where
  connectionState : ConnectionState
  firstConnection : Bool
  realtime : Option RealtimeState
  listens : List (FQuerySpec π × FOutstandingQuery κ π)
  outstandingPuts : List (ℕ × FOutstandingPut δ κ)
  onDisconnectQueue : List (FTupleOnDisconnect δ κ)
  putCounter : ℕ
  requestNumber : ℕ
  requestCBHash : List (ℕ × ResponseBlock κ π)
  unackedListensCount : ℤ
  putsToAck : List (FTupleCallbackStatus κ)
  interruptReasons : Finset InterruptReason
  scheduledRetry : Option Bool
  authToken : Option String
  forceAuthTokenRefresh : Bool
  currentFetchTokenAttempt : ℕ
  fetches : List ℕ
  allocated : ℕ
  sent : List (Message δ π)
  calls : List (BlockCall κ)

namespace FPersistentConnection

variable {δ : Type u} {κ : Type v} {π : Type w}

def statusOk : String := "ok"

def transactionDisconnect : String := "disconnect"

def errorWriteCanceled : String := "write_canceled"

def init : FPersistentConnection δ κ π where
  connectionState := .disconnected
  firstConnection := true
  realtime := none
  listens := []
  outstandingPuts := []
  onDisconnectQueue := []
  putCounter := 1
  requestNumber := 1
  requestCBHash := []
  unackedListensCount := 0
  putsToAck := []
  interruptReasons := {.waitingForOpen}
  scheduledRetry := none
  authToken := none
  forceAuthTokenRefresh := false
  currentFetchTokenAttempt := 0
  fetches := []
  allocated := 0
  sent := []
  calls := []

def isConnected (self : FPersistentConnection δ κ π) : Bool :=
  self.connectionState = .authenticating || self.connectionState = .connected

def canSendWrites (self : FPersistentConnection δ κ π) : Bool :=
  self.connectionState = .connected

def inState (self : FPersistentConnection δ κ π) (state : ConnectionState) :
    FPersistentConnection δ κ π :=
  { self with connectionState := state }

def withToken (self : FPersistentConnection δ κ π) (token : Option String) :
    FPersistentConnection δ κ π :=
  { self with authToken := token }

/-- The token is dropped, and the next one is fetched anew. -/
def tokenRejected (self : FPersistentConnection δ κ π) :
    FPersistentConnection δ κ π :=
  { self with authToken := none, forceAuthTokenRefresh := true }

def shouldReconnect (self : FPersistentConnection δ κ π) : Bool :=
  self.interruptReasons = ∅

/-! ## Sending -/

/-- A request on a connection which is not open yet throws, and one on no
connection at all is a message to nil. -/
def sendAction (self : FPersistentConnection δ κ π)
    (action : RequestAction δ π)
    (onMessage : Option (ResponseBlock κ π)) :
    Except ConnectionFailure (FPersistentConnection δ κ π) :=
  let requestCBHash :=
    match onMessage with
    | none => self.requestCBHash
    | some block => self.requestCBHash ++ [(self.requestNumber, block)]
  match self.realtime with
  | some .connecting => .error .invalidConnectionState
  | some .connected =>
      .ok { self with
        requestNumber := self.requestNumber + 1
        sent := self.sent ++ [⟨self.requestNumber, action⟩]
        requestCBHash := requestCBHash }
  | none =>
      .ok { self with
        requestNumber := self.requestNumber + 1
        requestCBHash := requestCBHash }

def queriesOf (query : FQuerySpec π) (tagId : Option ℕ) :
    Option (FQueryParams π × ℕ) :=
  tagId.map fun tagId => (query.params, tagId)

def sendListen (self : FPersistentConnection δ κ π)
    (listenSpec : FOutstandingQuery κ π) :
    Except ConnectionFailure (FPersistentConnection δ κ π) := do
  let self ← self.sendAction
    (.listen listenSpec.query.path
      (queriesOf listenSpec.query listenSpec.tagId))
    (some (.listen listenSpec))
  return { self with unackedListensCount := self.unackedListensCount + 1 }

def sendUnlisten (self : FPersistentConnection δ κ π) (query : FQuerySpec π)
    (tagId : Option ℕ) :
    Except ConnectionFailure (FPersistentConnection δ κ π) :=
  self.sendAction (.unlisten query.path (queriesOf query tagId)) none

/-- `put.sent = YES`. -/
def markSent (index : ℕ) (entry : ℕ × FOutstandingPut δ κ) :
    ℕ × FOutstandingPut δ κ :=
  if entry.1 = index then (entry.1, { entry.2 with sent := true }) else entry

def sendPut (self : FPersistentConnection δ κ π) (index : ℕ) :
    Except ConnectionFailure (FPersistentConnection δ κ π) :=
  if self.canSendWrites then
    match self.outstandingPuts.lookup index with
    | none => .error (.assertion "put != nil")
    | some put =>
        { self with
          outstandingPuts := self.outstandingPuts.map (markSent index)
        }.sendAction (.put put.request) (some (.put index put.onCompleteBlock))
  else
    .error (.assertion "sendPut called when not able to send writes")

def sendOnDisconnectAction (self : FPersistentConnection δ κ π)
    (tuple : FTupleOnDisconnect δ κ) :
    Except ConnectionFailure (FPersistentConnection δ κ π) :=
  self.sendAction (.onDisconnect tuple.action tuple.pathString tuple.data)
    (some (.onDisconnect tuple.onComplete))

def sendAuthAndRestoreStateAfterComplete
    (self : FPersistentConnection δ κ π)
    (restoreStateAfterComplete : Bool) :
    Except ConnectionFailure (FPersistentConnection δ κ π) :=
  if self.isConnected then
    match self.authToken with
    | none => .error (.assertion "Can't send auth if there is no credential")
    | some credential =>
        self.sendAction (.auth credential)
          (some (.auth restoreStateAfterComplete))
  else
    .error (.assertion "Must be connected to send auth")

def sendUnauth (self : FPersistentConnection δ κ π) :
    Except ConnectionFailure (FPersistentConnection δ κ π) :=
  self.sendAction .unauth none

/-- The statistics of the first connection are never empty. -/
def sendConnectStats (self : FPersistentConnection δ κ π) :
    Except ConnectionFailure (FPersistentConnection δ κ π) :=
  self.sendAction .stats (some .stats)

/-! ## Reconnecting -/

def tryScheduleReconnect (self : FPersistentConnection δ κ π) :
    Except ConnectionFailure (FPersistentConnection δ κ π) :=
  if self.shouldReconnect then
    if self.connectionState = .disconnected then
      .ok { self with
        forceAuthTokenRefresh := false
        scheduledRetry := some self.forceAuthTokenRefresh }
    else .error (.assertion "Not in disconnected state")
  else .ok self

/-- The block of a retry, which fetches a token. -/
def retry (self : FPersistentConnection δ κ π) :
    Except ConnectionFailure (FPersistentConnection δ κ π) :=
  if self.connectionState = .disconnected then
    .ok { self with
      scheduledRetry := none
      connectionState := .gettingToken
      currentFetchTokenAttempt := self.currentFetchTokenAttempt + 1
      fetches := self.fetches ++ [self.currentFetchTokenAttempt + 1] }
  else .error (.assertion "Not in disconnected state")

def openNetworkConnectionWithToken (self : FPersistentConnection δ κ π)
    (token : Option String) :
    Except ConnectionFailure (FPersistentConnection δ κ π) :=
  if self.connectionState = .gettingToken then
    .ok { self with
      authToken := token
      connectionState := .connecting
      realtime := some .connecting }
  else
    .error (.assertion
      "Trying to open network connection while in wrong state")

def fetched (self : FPersistentConnection δ κ π) (attempt : ℕ) :
    FPersistentConnection δ κ π :=
  { self with fetches := self.fetches.erase attempt }

/-- The callback of a fetch; the token is `none` where the fetch failed. -/
def onFetchToken (self : FPersistentConnection δ κ π)
    (thisFetchTokenAttempt : ℕ) (token : Option (Option String)) :
    Except ConnectionFailure (FPersistentConnection δ κ π) :=
  let fetched := self.fetched thisFetchTokenAttempt
  if thisFetchTokenAttempt = self.currentFetchTokenAttempt then
    match token with
    | none => (fetched.inState .disconnected).tryScheduleReconnect
    | some token =>
        if self.connectionState = .gettingToken then
          fetched.openNetworkConnectionWithToken token
        else if self.connectionState = .disconnected then .ok fetched
        else .error (.assertion "Expected connection state disconnected")
  else .ok fetched

/-- Whether a put is a transaction which may have reached the server. -/
def isSentTransaction (entry : ℕ × FOutstandingPut δ κ) : Bool :=
  entry.2.request.hash.isSome && entry.2.sent

def cancelSentTransactions (self : FPersistentConnection δ κ π) :
    FPersistentConnection δ κ π :=
  { self with
    calls := self.calls ++
      (self.outstandingPuts.filter isSentTransaction).map fun entry =>
        .put entry.2.onCompleteBlock (some transactionDisconnect)
          (some "Client was disconnected while running a transaction")
    outstandingPuts :=
      self.outstandingPuts.filter fun entry => !isSentTransaction entry }

/-- The realtime connection is dropped with the requests it carried. -/
def dropRealtime (self : FPersistentConnection δ κ π) :
    FPersistentConnection δ κ π :=
  { (self.inState .disconnected).cancelSentTransactions with
    realtime := none
    requestCBHash := []
    unackedListensCount := 0 }

/-- `onDisconnect:withReason:`. -/
def onDisconnect (self : FPersistentConnection δ κ π) :
    Except ConnectionFailure (FPersistentConnection δ κ π) :=
  if self.shouldReconnect then self.dropRealtime.tryScheduleReconnect
  else .ok self.dropRealtime

/-- `[self.realtime close]`, which is a message to nil without a
connection. -/
def closeRealtime (self : FPersistentConnection δ κ π) :
    Except ConnectionFailure (FPersistentConnection δ κ π) :=
  match self.realtime with
  | none => .ok self
  | some _ => self.onDisconnect

def interrupted (self : FPersistentConnection δ κ π)
    (reason : InterruptReason) : FPersistentConnection δ κ π :=
  { self with interruptReasons := insert reason self.interruptReasons }

/-- Closing the realtime connection comes back as `onDisconnect`. -/
def interruptForReason (self : FPersistentConnection δ κ π)
    (reason : InterruptReason) :
    Except ConnectionFailure (FPersistentConnection δ κ π) :=
  match self.realtime with
  | some _ => do
      let self ← (self.interrupted reason).onDisconnect
      return { self with realtime := none }
  | none =>
      .ok { (self.interrupted reason).inState .disconnected with
        scheduledRetry := none }

def resumed (self : FPersistentConnection δ κ π)
    (reason : InterruptReason) : FPersistentConnection δ κ π :=
  { self with interruptReasons := self.interruptReasons.erase reason }

def resumeForReason (self : FPersistentConnection δ κ π)
    (reason : InterruptReason) :
    Except ConnectionFailure (FPersistentConnection δ κ π) :=
  if (self.resumed reason).shouldReconnect &&
      self.connectionState = .disconnected then
    (self.resumed reason).tryScheduleReconnect
  else .ok (self.resumed reason)

/-- The network became reachable, or the application came back. -/
def reconnectNow (self : FPersistentConnection δ κ π) :
    Except ConnectionFailure (FPersistentConnection δ κ π) :=
  if self.connectionState = .disconnected then self.tryScheduleReconnect
  else .ok self

/-! ## Restoring the state after a reconnection -/

def sendPutIfOutstanding (self : FPersistentConnection δ κ π)
    (index : ℕ) : Except ConnectionFailure (FPersistentConnection δ κ π) :=
  if (self.outstandingPuts.lookup index).isSome then self.sendPut index
  else .ok self

def restoreState (self : FPersistentConnection δ κ π) :
    Except ConnectionFailure (FPersistentConnection δ κ π) :=
  if self.connectionState = .connected then do
    let self ← (self.listens.map Prod.snd).foldlM sendListen self
    let keys := (self.outstandingPuts.map Prod.fst).mergeSort
    let self ← keys.foldlM sendPutIfOutstanding self
    let self ← self.onDisconnectQueue.foldlM sendOnDisconnectAction self
    return { self with onDisconnectQueue := [] }
  else .error (.assertion "Should be connected if we're restoring state")

def restoreAuth (self : FPersistentConnection δ κ π) :
    Except ConnectionFailure (FPersistentConnection δ κ π) :=
  if self.connectionState = .connecting then
    match self.authToken with
    | none => (self.inState .connected).restoreState
    | some _ =>
        (self.inState .authenticating).sendAuthAndRestoreStateAfterComplete
          true
  else
    .error (.assertion "Wanted to restore auth, but was in wrong state")

def sendStatsIfFirst (self : FPersistentConnection δ κ π) :
    Except ConnectionFailure (FPersistentConnection δ κ π) :=
  if self.firstConnection then self.sendConnectStats else .ok self

def onReady (self : FPersistentConnection δ κ π) :
    Except ConnectionFailure (FPersistentConnection δ κ π) := do
  let self ← self.sendStatsIfFirst
  let self ← self.restoreAuth
  return { self with firstConnection := false }

def opened (self : FPersistentConnection δ κ π) :
    FPersistentConnection δ κ π :=
  { self with realtime := some .connected }

/-- The server's greeting, which only a connection that is being opened
waits for. -/
def onHandshake (self : FPersistentConnection δ κ π) :
    Except ConnectionFailure (FPersistentConnection δ κ π) :=
  match self.realtime with
  | some .connecting => self.opened.onReady
  | _ => .ok self

/-! ## The answers of the server -/

def ackPuts (self : FPersistentConnection δ κ π) :
    FPersistentConnection δ κ π :=
  { self with
    calls := self.calls ++
      self.putsToAck.map fun put => .put put.block put.status put.errorReason
    putsToAck := [] }

/-- An index is never given out twice, so what is there under the index of a
put is this put. -/
def onPutResponse (self : FPersistentConnection δ κ π) (index : ℕ)
    (onComplete : κ) (response : Response) :
    FPersistentConnection δ κ π :=
  if (self.outstandingPuts.lookup index).isSome then
    if self.unackedListensCount = 0 then
      { self with
        outstandingPuts := KeyedList.erase index self.outstandingPuts
        calls := self.calls ++
          [.put onComplete response.status response.data] }
    else
      { self with
        outstandingPuts := KeyedList.erase index self.outstandingPuts
        putsToAck := self.putsToAck ++
          [⟨onComplete, response.status, response.data⟩] }
  else self

section Listens

variable [DecidableEq π]

def listenRemoved (self : FPersistentConnection δ κ π)
    (query : FQuerySpec π) : FPersistentConnection δ κ π :=
  { self with
    listens := self.listens.filter fun entry => entry.1 ≠ query }

def removeListen (self : FPersistentConnection δ κ π)
    (query : FQuerySpec π) :
    Except ConnectionFailure (FPersistentConnection δ κ π) :=
  if query.hasShape then .ok (self.listenRemoved query)
  else
    .error (.assertion
      "removeListen called for non-default but complete query")

/-- Whether the listen has not been removed, and perhaps added again. -/
def isCurrent (self : FPersistentConnection δ κ π)
    (listenSpec : FOutstandingQuery κ π) : Bool :=
  (self.listens.lookup listenSpec.query).map FOutstandingQuery.address =
    some listenSpec.address

/-- A listen which fails is removed. -/
def removeFailed (self : FPersistentConnection δ κ π)
    (listenSpec : FOutstandingQuery κ π) (response : Response) :
    Except ConnectionFailure (FPersistentConnection δ κ π) :=
  if self.isCurrent listenSpec && response.status ≠ some statusOk then
    self.removeListen listenSpec.query
  else .ok self

/-- The block of a listen which has been removed since is not told. -/
def listenReported (self : FPersistentConnection δ κ π)
    (listenSpec : FOutstandingQuery κ π) (response : Response) :
    FPersistentConnection δ κ π :=
  { self with
    listens :=
      if self.isCurrent listenSpec && response.status ≠ some statusOk then
        (self.listenRemoved listenSpec.query).listens
      else self.listens
    calls :=
      if self.isCurrent listenSpec then
        self.calls ++ [.listen listenSpec.onComplete response.status]
      else self.calls }

/-- The count is unsigned in the source, so that its own assertion could not
fail there. -/
def onListenResponse (self : FPersistentConnection δ κ π)
    (listenSpec : FOutstandingQuery κ π) (response : Response) :
    Except ConnectionFailure (FPersistentConnection δ κ π) :=
  match self.removeFailed listenSpec response with
  | .error failure => .error failure
  | .ok _ =>
      let count := self.unackedListensCount - 1
      let reported :=
        { self.listenReported listenSpec response with
          unackedListensCount := count }
      if count < 0 then
        .error (.assertion "unackedListensCount decremented to be negative.")
      else if count = 0 then .ok reported.ackPuts
      else .ok reported

def onAuthResponse (self : FPersistentConnection δ κ π)
    (restoreStateAfterComplete : Bool) (response : Response) :
    Except ConnectionFailure (FPersistentConnection δ κ π) :=
  let authenticated := self.inState .connected
  if response.status = some statusOk then
    if restoreStateAfterComplete then authenticated.restoreState
    else .ok authenticated
  else authenticated.tokenRejected.closeRealtime

/-- What the callback of a request does. -/
def onResponse (self : FPersistentConnection δ κ π)
    (block : ResponseBlock κ π) (response : Response) :
    Except ConnectionFailure (FPersistentConnection δ κ π) :=
  match block with
  | .stats => .ok self
  | .auth restoreStateAfterComplete =>
      self.onAuthResponse restoreStateAfterComplete response
  | .put index onComplete =>
      .ok (self.onPutResponse index onComplete response)
  | .listen listenSpec => self.onListenResponse listenSpec response
  | .onDisconnect callback =>
      .ok { self with
        calls := self.calls ++
          [.onDisconnect callback response.status response.data] }

/-- The block of an answered request waits no longer. -/
def answered (self : FPersistentConnection δ κ π) (requestNumber : ℕ) :
    FPersistentConnection δ κ π :=
  { self with
    requestCBHash := KeyedList.erase requestNumber self.requestCBHash }

/-- An answer to a request; one which nothing waits for is dropped. -/
def onDataMessage (self : FPersistentConnection δ κ π)
    (requestNumber : ℕ) (response : Response) :
    Except ConnectionFailure (FPersistentConnection δ κ π) :=
  match self.requestCBHash.lookup requestNumber with
  | none => .ok self
  | some block =>
      (self.answered requestNumber).onResponse block response

def onAuthRevoked (self : FPersistentConnection δ κ π) :
    Except ConnectionFailure (FPersistentConnection δ κ π) :=
  self.tokenRejected.closeRealtime

def onListenRevoked (self : FPersistentConnection δ κ π) (path : FPath String) :
    FPersistentConnection δ κ π :=
  { self with
    listens := self.listens.filter fun entry => entry.1.path ≠ path
    calls := self.calls ++
      (self.listens.filter fun entry => entry.1.path = path).map fun entry =>
        .listen entry.2.onComplete (some "permission_denied") }

/-! ## The calls of the repository -/

def listenAdded (self : FPersistentConnection δ κ π) (query : FQuerySpec π)
    (tagId : Option ℕ) (onComplete : κ) : FPersistentConnection δ κ π :=
  { self with
    allocated := self.allocated + 1
    listens := self.listens ++
      [(query, ⟨self.allocated, query, tagId, onComplete⟩)] }

def listen (self : FPersistentConnection δ κ π) (query : FQuerySpec π)
    (tagId : Option ℕ) (onComplete : κ) :
    Except ConnectionFailure (FPersistentConnection δ κ π) :=
  if (self.listens.lookup query).isSome then
    .error (.assertion "listen() called twice for the same query")
  else if !query.hasShape then
    .error (.assertion "listen called for non-default but complete query")
  else if self.isConnected then
    (self.listenAdded query tagId onComplete).sendListen
      ⟨self.allocated, query, tagId, onComplete⟩
  else .ok (self.listenAdded query tagId onComplete)

def unlisten (self : FPersistentConnection δ κ π) (query : FQuerySpec π)
    (tagId : Option ℕ) :
    Except ConnectionFailure (FPersistentConnection δ κ π) :=
  match self.removeListen query with
  | .error failure => .error failure
  | .ok removed =>
      if (self.listens.lookup query).isSome && self.isConnected then
        removed.sendUnlisten query tagId
      else .ok removed

def putAdded (self : FPersistentConnection δ κ π) (request : PutRequest δ)
    (onComplete : κ) : FPersistentConnection δ κ π :=
  { self with
    putCounter := self.putCounter + 1
    outstandingPuts := self.outstandingPuts ++
      [(self.putCounter, ⟨request, onComplete, false⟩)] }

/-- `putData` and `mergeData`. -/
def putInternal (self : FPersistentConnection δ κ π)
    (request : PutRequest δ) (onComplete : κ) :
    Except ConnectionFailure (FPersistentConnection δ κ π) :=
  if self.canSendWrites then
    (self.putAdded request onComplete).sendPut self.putCounter
  else .ok (self.putAdded request onComplete)

/-- `onDisconnectPutData`, `onDisconnectMergeData` and
`onDisconnectCancelPath`. -/
def onDisconnectAction (self : FPersistentConnection δ κ π)
    (tuple : FTupleOnDisconnect δ κ) :
    Except ConnectionFailure (FPersistentConnection δ κ π) :=
  if self.canSendWrites then self.sendOnDisconnectAction tuple
  else
    .ok { self with onDisconnectQueue := self.onDisconnectQueue ++ [tuple] }

def refreshAuthToken (self : FPersistentConnection δ κ π)
    (token : Option String) :
    Except ConnectionFailure (FPersistentConnection δ κ π) :=
  if self.isConnected then
    if token.isSome then
      (self.withToken token).sendAuthAndRestoreStateAfterComplete false
    else (self.withToken token).sendUnauth
  else .ok (self.withToken token)

/-- The dictionary is emptied in the order of its keys. -/
def purgeOutstandingWrites (self : FPersistentConnection δ κ π) :
    FPersistentConnection δ κ π :=
  let keys := (self.outstandingPuts.map Prod.fst).mergeSort
  { self.ackPuts with
    calls := self.ackPuts.calls ++
      (keys.filterMap fun key =>
        (self.outstandingPuts.lookup key).map fun put =>
          .put put.onCompleteBlock (some errorWriteCanceled) none) ++
      self.onDisconnectQueue.map fun tuple =>
        .onDisconnect tuple.onComplete (some errorWriteCanceled) none
    outstandingPuts := []
    onDisconnectQueue := [] }

/-! ## The machine -/

inductive Event (δ : Type u) (κ : Type v) (π : Type w) where
  | listen (query : FQuerySpec π) (tagId : Option ℕ) (onComplete : κ)
  | unlisten (query : FQuerySpec π) (tagId : Option ℕ)
  | put (request : PutRequest δ) (onComplete : κ)
  | onDisconnectAction (tuple : FTupleOnDisconnect δ κ)
  | refreshAuthToken (token : Option String)
  | purgeOutstandingWrites
  | interrupt (reason : InterruptReason)
  | resume (reason : InterruptReason)
  | reconnectNow
  | retry
  | fetchToken (attempt : ℕ) (token : Option (Option String))
  | handshake
  | response (requestNumber : ℕ) (response : Response)
  | authRevoked
  | listenRevoked (path : FPath String)
  | shutdown
  | connectionLost

def handle (self : FPersistentConnection δ κ π) :
    Event δ κ π → Except ConnectionFailure (FPersistentConnection δ κ π)
  | .listen query tagId onComplete => self.listen query tagId onComplete
  | .unlisten query tagId => self.unlisten query tagId
  | .put request onComplete => self.putInternal request onComplete
  | .onDisconnectAction tuple => self.onDisconnectAction tuple
  | .refreshAuthToken token => self.refreshAuthToken token
  | .purgeOutstandingWrites => .ok self.purgeOutstandingWrites
  | .interrupt reason => self.interruptForReason reason
  | .resume reason => self.resumeForReason reason
  | .reconnectNow => self.reconnectNow
  | .retry => self.retry
  | .fetchToken attempt token => self.onFetchToken attempt token
  | .handshake => self.onHandshake
  | .response requestNumber response =>
      self.onDataMessage requestNumber response
  | .authRevoked => self.onAuthRevoked
  | .listenRevoked path => .ok (self.onListenRevoked path)
  | .shutdown => self.interruptForReason .serverKill
  | .connectionLost => self.closeRealtime

/-- A retry comes only if one is scheduled, a fetch is answered once, and only
an open connection can be shut down or lost.  The repository may call
anything. -/
def CanOccur (self : FPersistentConnection δ κ π) : Event δ κ π → Prop
  | .retry => self.scheduledRetry.isSome
  | .fetchToken attempt _ => attempt ∈ self.fetches
  | .shutdown => self.realtime.isSome
  | .connectionLost => self.realtime.isSome
  | _ => True

instance (self : FPersistentConnection δ κ π) (event : Event δ κ π) :
    Decidable (self.CanOccur event) := by
  cases event <;> unfold CanOccur <;> infer_instance

/-- The calls which the repository must not make: a listen for a query that is
listened for, and a listen or an unlisten for a complete query which is not
the default. -/
def brokenContract (self : FPersistentConnection δ κ π) :
    Event δ κ π → Option String
  | .listen query _ _ =>
      if (self.listens.lookup query).isSome then
        some "listen() called twice for the same query"
      else if query.hasShape then none
      else some "listen called for non-default but complete query"
  | .unlisten query _ =>
      if query.hasShape then none
      else some "removeListen called for non-default but complete query"
  | _ => none

/-- What can occur while the repository keeps the contract. -/
def Possible (self : FPersistentConnection δ κ π) (event : Event δ κ π) :
    Prop :=
  self.CanOccur event ∧ self.brokenContract event = none

instance (self : FPersistentConnection δ κ π) (event : Event δ κ π) :
    Decidable (self.Possible event) :=
  inferInstanceAs (Decidable (_ ∧ _))

/-- The connection in a repository which keeps the contract. -/
def machine (δ : Type u) (κ : Type v) (π : Type w) [DecidableEq π] :
    EventMachine
      (Except ConnectionFailure (FPersistentConnection δ κ π))
      (Event δ κ π) where
  step outcome event :=
    match outcome with
    | .error _ => none
    | .ok self => if self.Possible event then some (self.handle event) else none

end Listens

end FPersistentConnection

end FirebaseDatabase
