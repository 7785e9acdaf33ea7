import Stockly.ConnectionInvariant

/-!
# Listens made while the token is checked

A put waits until the connection has been authenticated.  A listen does not:
it is sent while the authentication waits for its answer, and the restored
state, which has all listens, sends it again.
-/

universe u v w

namespace FirebaseDatabase

namespace FPersistentConnection

variable {δ : Type u} {κ : Type v} {π : Type w}
  {self : FPersistentConnection δ κ π}

def listenRequests (self : FPersistentConnection δ κ π) :
    List (Request δ κ π) :=
  (self.listens.map Prod.snd).map listenRequest

/-- The restored state begins with the listens. -/
theorem restored_sent (self : FPersistentConnection δ κ π) :
    ∃ after, self.restored.sent = self.sent ++
      (messages self.requestNumber self.listenRequests ++ after) := by
  have hsent : self.restored.sent = self.sent ++
      messages self.requestNumber self.listenRequests ++
      messages (self.listensSent
        (self.listens.map Prod.snd)).requestNumber
          (self.outstandingPuts.map putRequest) ++
      messages (self.listensSent
        (self.listens.map Prod.snd)).putsSent.requestNumber
          (self.onDisconnectQueue.map
            (onDisconnectRequest : _ → Request δ κ π)) := rfl
  rw [hsent, List.append_assoc, List.append_assoc]
  exact ⟨_, rfl⟩

theorem messages_concat (first : ℕ) (requests : List (Request δ κ π))
    (request : Request δ κ π) :
    messages first (requests ++ [request]) =
      messages first requests ++ [⟨first + requests.length, request.1⟩] := by
  rw [messages_append]
  rfl

/-- The listen has been sent. -/
def listening (self : FPersistentConnection δ κ π) (query : FQuerySpec π)
    (tagId : Option ℕ) (onComplete : κ) : FPersistentConnection δ κ π :=
  (self.listenAdded query tagId onComplete).listensSent
    [⟨self.allocated, query, tagId, onComplete⟩]

/-- And the authentication has been accepted. -/
def accepted (self : FPersistentConnection δ κ π) (query : FQuerySpec π)
    (tagId : Option ℕ) (onComplete : κ) (number : ℕ) :
    FPersistentConnection δ κ π :=
  ((self.listening query tagId onComplete).answered number).inState .connected

theorem accepted_sent (self : FPersistentConnection δ κ π)
    (query : FQuerySpec π) (tagId : Option ℕ) (onComplete : κ)
    (number : ℕ) :
    (self.accepted query tagId onComplete number).sent = self.sent ++
      [⟨self.requestNumber,
        .listen query.path (queriesOf query tagId)⟩] := rfl

theorem messages_accepted (self : FPersistentConnection δ κ π)
    (query : FQuerySpec π) (tagId : Option ℕ) (onComplete : κ)
    (number : ℕ) :
    messages (self.accepted query tagId onComplete number).requestNumber
        (self.accepted query tagId onComplete number).listenRequests =
      messages (self.requestNumber + 1) self.listenRequests ++
        [⟨self.requestNumber + 1 + self.listens.length,
          .listen query.path (queriesOf query tagId)⟩] := by
  have hrequests : (self.accepted query tagId onComplete
      number).listenRequests = self.listenRequests ++
        [listenRequest ⟨self.allocated, query, tagId, onComplete⟩] := by
    have hlistens : (self.accepted query tagId onComplete number).listens =
        self.listens ++
          [(query, ⟨self.allocated, query, tagId, onComplete⟩)] := rfl
    unfold listenRequests
    rw [hlistens, List.map_append, List.map_append]
    rfl
  have hnumber : (self.accepted query tagId onComplete
      number).requestNumber = self.requestNumber + 1 := rfl
  have hlength : self.listenRequests.length = self.listens.length := by
    simp [listenRequests]
  rw [hrequests, hnumber, messages_concat, hlength]
  rfl

theorem lookup_listening {number : ℕ} {block : ResponseBlock κ π}
    (hlookup : self.requestCBHash.lookup number = some block)
    (query : FQuerySpec π) (tagId : Option ℕ) (onComplete : κ) :
    (self.listening query tagId onComplete).requestCBHash.lookup number =
      some block := by
  have hhash : (self.listening query tagId onComplete).requestCBHash =
      self.requestCBHash ++ waiting self.requestNumber
        [(listenRequest ⟨self.allocated, query, tagId, onComplete⟩ :
          Request δ κ π)] := rfl
  rw [hhash, List.lookup_append, hlookup]
  rfl

section Listens

variable [DecidableEq π]

omit [DecidableEq π] in
/-- An unanswered request waits on an open connection. -/
theorem Consistent.isConnected_of_lookup (hself : self.Consistent)
    {number : ℕ} {block : ResponseBlock κ π}
    (hlookup : self.requestCBHash.lookup number = some block) :
    self.isConnected = true := by
  have hopen := hself.requests.open_of_lookup hlookup
  rw [hself.attempts.realtime_eq] at hopen
  unfold isConnected
  cases hstate : self.connectionState <;> rw [hstate] at hopen <;>
    first | rfl | contradiction

theorem after_listen (hconnected : self.isConnected = true)
    (query : FQuerySpec π) (tagId : Option ℕ) (onComplete : κ) :
    self.after (.listen query tagId onComplete) =
      self.listening query tagId onComplete := by
  simp only [FPersistentConnection.after, if_pos hconnected]
  rfl

theorem after_accepted {number : ℕ}
    (hlookup : self.requestCBHash.lookup number = some (.auth true))
    (query : FQuerySpec π) (tagId : Option ℕ) (onComplete : κ)
    (data : Option String) :
    (self.listening query tagId onComplete).after
        (.response number ⟨some statusOk, data⟩) =
      (self.accepted query tagId onComplete number).restored := by
  simp only [FPersistentConnection.after, afterResponse,
    lookup_listening hlookup]
  rfl

/-- Such a listen is sent twice over one connection. -/
theorem listen_sent_twice {before : List (Event δ κ π)}
    (hbefore : (machine δ κ π).run (Except.ok init) before =
      some (Except.ok self)) {number : ℕ}
    (hlookup : self.requestCBHash.lookup number = some (.auth true))
    {query : FQuerySpec π} {tagId : Option ℕ} {onComplete : κ}
    (hkeeps : self.brokenContract (.listen query tagId onComplete) = none)
    (data : Option String) :
    ∃ next between after, (machine δ κ π).run (Except.ok self)
        [.listen query tagId onComplete,
          .response number ⟨some statusOk, data⟩] = some (Except.ok next) ∧
      next.sent = self.sent ++
        ⟨self.requestNumber, .listen query.path (queriesOf query tagId)⟩ ::
          (between ++
            ⟨self.requestNumber + 1 + self.listens.length,
              .listen query.path (queriesOf query tagId)⟩ :: after) := by
  obtain ⟨start, hstart, hself⟩ := consistent_init.run hbefore
  obtain rfl := Except.ok.inj hstart
  have hpossible : self.AllPossible [.listen query tagId onComplete,
      .response number ⟨some statusOk, data⟩] :=
    ⟨⟨trivial, hkeeps⟩, ⟨trivial, rfl⟩, trivial⟩
  have hrun := hself.run_eq hpossible
  rw [List.foldl_cons, after_listen (hself.isConnected_of_lookup hlookup),
    List.foldl_cons,
    after_accepted hlookup, List.foldl_nil] at hrun
  obtain ⟨after, hsent⟩ := restored_sent
    (self.accepted query tagId onComplete number)
  refine ⟨_, messages (self.requestNumber + 1) self.listenRequests, after,
    hrun, ?_⟩
  rw [hsent, accepted_sent, messages_accepted]
  simp

/-- The server has accepted a newer token and not answered for the older
one. -/
def tokenSentEvents : List (Event ℕ String ℕ) :=
  [.resume .waitingForOpen, .retry, .fetchToken 1 (some (some "token")),
    .handshake, .refreshAuthToken (some "newer"),
    .response 3 ⟨some "ok", none⟩]

theorem listen_sent_twice_stocks :
    ∃ next between after, (machine ℕ String ℕ).run
        (Except.ok (tokenSentEvents.foldl FPersistentConnection.after init))
        [.listen ⟨["stocks"], .defaultInstance 0⟩ none "listen",
          .response 2 ⟨some statusOk, none⟩] = some (Except.ok next) ∧
      next.sent =
        (tokenSentEvents.foldl FPersistentConnection.after init).sent ++
          ⟨4, .listen ["stocks"] none⟩ ::
            (between ++ ⟨5, .listen ["stocks"] none⟩ :: after) := by
  have hpossible : init.AllPossible tokenSentEvents := by decide
  exact listen_sent_twice (consistent_init.run_eq hpossible) rfl rfl none

end Listens

end FPersistentConnection

end FirebaseDatabase
