import Stockly.ConnectionInvariant

/-!
# Outstanding puts on the open connection

A put is sent when it is made or when the state is restored, and both happen
only once the connection has been authenticated.  As long as the requests for
authentication are answered in their order, every outstanding put waits for
one answer on the connection which is connected: no reconnection forgets a
put, and none is sent twice over one connection.
-/

universe u v w

namespace FirebaseDatabase

namespace FPersistentConnection

variable {δ : Type u} {κ : Type v} {π : Type w}

def authFlag : ResponseBlock κ π → Option Bool
  | .auth restoreStateAfterComplete => some restoreStateAfterComplete
  | _ => none

def putIndex : ResponseBlock κ π → Option ℕ
  | .put index _ => some index
  | _ => none

/-- Whether the state is restored, for each authentication that is not
answered. -/
def auths (hash : List (ℕ × ResponseBlock κ π)) : List Bool :=
  hash.filterMap fun entry => authFlag entry.2

/-- The puts which wait for an answer. -/
def indices (hash : List (ℕ × ResponseBlock κ π)) : List ℕ :=
  hash.filterMap fun entry => putIndex entry.2

def putKeys (self : FPersistentConnection δ κ π) : List ℕ :=
  self.outstandingPuts.map Prod.fst

structure OnWire (state : ConnectionState)
    (hash : List (ℕ × ResponseBlock κ π)) (keys : List ℕ)
    (putCounter : ℕ) : Prop where
  authenticating : state = .authenticating →
    ∃ rest, auths hash = true :: rest ∧ ∀ flag ∈ rest, flag = false
  unsent : state = .authenticating → indices hash = []
  authenticated : state = .connected → ∀ flag ∈ auths hash, flag = false
  sent : state = .connected → keys.Sublist (indices hash)
  ascending : (indices hash).Pairwise (· < ·)
  below : ∀ index ∈ indices hash, index < putCounter

def PutsOnWire (self : FPersistentConnection δ κ π) : Prop :=
  OnWire self.connectionState self.requestCBHash self.putKeys self.putCounter

/-! ## The blocks which wait -/

theorem filterMap_waiting {γ : Type*} (property : ResponseBlock κ π → Option γ)
    (first : ℕ) (requests : List (Request δ κ π)) :
    (waiting first requests).filterMap (fun entry => property entry.2) =
      requests.filterMap fun request => request.2.bind property := by
  induction requests generalizing first with
  | nil => rfl
  | cons request requests ih =>
      rw [waiting_cons, List.filterMap_append, ih, List.filterMap_cons]
      cases request.2 with
      | none => rfl
      | some block => cases hblock : property block <;> simp [hblock]

theorem auths_record (hash : List (ℕ × ResponseBlock κ π)) (first : ℕ)
    (requests : List (Request δ κ π)) :
    auths (hash ++ waiting first requests) =
      auths hash ++ requests.filterMap fun request =>
        request.2.bind authFlag := by
  unfold auths
  rw [List.filterMap_append, filterMap_waiting]

theorem indices_record (hash : List (ℕ × ResponseBlock κ π)) (first : ℕ)
    (requests : List (Request δ κ π)) :
    indices (hash ++ waiting first requests) =
      indices hash ++ requests.filterMap fun request =>
        request.2.bind putIndex := by
  unfold indices
  rw [List.filterMap_append, filterMap_waiting]

theorem filterMap_split {γ : Type*} (property : ResponseBlock κ π → Option γ)
    (before after : List (ℕ × ResponseBlock κ π)) (number : ℕ)
    (block : ResponseBlock κ π) :
    (before ++ (number, block) :: after).filterMap
      (fun entry => property entry.2) =
        before.filterMap (fun entry => property entry.2) ++
          ((property block).toList ++
            after.filterMap fun entry => property entry.2) := by
  rw [List.filterMap_append, List.filterMap_cons]
  cases property block <;> rfl

section OnWire

variable {state : ConnectionState} {hash : List (ℕ × ResponseBlock κ π)}
  {keys : List ℕ} {putCounter : ℕ}

theorem OnWire.closed (hauthenticating : state ≠ .authenticating)
    (hconnected : state ≠ .connected) (keys : List ℕ) (putCounter : ℕ) :
    OnWire state ([] : List (ℕ × ResponseBlock κ π)) keys putCounter where
  authenticating := fun hstate => absurd hstate hauthenticating
  unsent := fun hstate => absurd hstate hauthenticating
  authenticated := fun hstate => absurd hstate hconnected
  sent := fun hstate => absurd hstate hconnected
  ascending := List.Pairwise.nil
  below := fun _ hmem => absurd hmem List.not_mem_nil

theorem OnWire.fewer (hwire : OnWire state hash keys putCounter)
    {later : List ℕ} (hlater : later.Sublist keys) :
    OnWire state hash later putCounter where
  authenticating := hwire.authenticating
  unsent := hwire.unsent
  authenticated := hwire.authenticated
  sent := fun hstate => hlater.trans (hwire.sent hstate)
  ascending := hwire.ascending
  below := hwire.below

/-- Requests join which are no puts and after which nothing is restored. -/
theorem OnWire.record (hwire : OnWire state hash keys putCounter)
    (first : ℕ) (requests : List (Request δ κ π))
    (hflags : ∀ request ∈ requests, request.2.bind authFlag ≠ some true)
    (hputs : ∀ request ∈ requests, request.2.bind putIndex = none) :
    OnWire state (hash ++ waiting first requests) keys putCounter := by
  have hnone : (requests.filterMap fun request =>
      request.2.bind putIndex) = [] := by
    rw [List.filterMap_eq_nil_iff]
    exact hputs
  have hfalse : ∀ flag ∈ requests.filterMap fun request =>
      request.2.bind authFlag, flag = false := by
    intro flag hflag
    obtain ⟨request, hrequest, heq⟩ := List.mem_filterMap.mp hflag
    cases flag with
    | true => exact absurd heq (hflags request hrequest)
    | false => rfl
  have hindices : indices (hash ++ waiting first requests) =
      indices hash := by
    rw [indices_record, hnone, List.append_nil]
  constructor
  · intro hstate
    obtain ⟨rest, hrest, hall⟩ := hwire.authenticating hstate
    refine ⟨_, by rw [auths_record, hrest, List.cons_append], ?_⟩
    intro flag hflag
    rcases List.mem_append.mp hflag with hold | hnew
    · exact hall flag hold
    · exact hfalse flag hnew
  · intro hstate
    rw [hindices]
    exact hwire.unsent hstate
  · intro hstate flag hflag
    rw [auths_record] at hflag
    rcases List.mem_append.mp hflag with hold | hnew
    · exact hwire.authenticated hstate flag hold
    · exact hfalse flag hnew
  · intro hstate
    rw [hindices]
    exact hwire.sent hstate
  · rw [hindices]
    exact hwire.ascending
  · rw [hindices]
    exact hwire.below

/-- An answer to anything but an authentication; an answered put is not
outstanding any more. -/
theorem OnWire.answered (hwire : OnWire state hash keys putCounter)
    (hdistinct : KeyedList.Distinct hash) {number : ℕ}
    {block : ResponseBlock κ π}
    (hlookup : hash.lookup number = some block)
    (hauth : authFlag block = none) {later : List ℕ}
    (hlater : later.Sublist
      (keys.filter fun index => putIndex block ≠ some index)) :
    OnWire state (KeyedList.erase number hash) later putCounter := by
  obtain ⟨before, after, hsplit, herase, -, -⟩ := hdistinct.split hlookup
  have hauths : auths (KeyedList.erase number hash) = auths hash := by
    unfold auths
    rw [herase, hsplit, filterMap_split, hauth, List.filterMap_append]
    rfl
  have hsublist : (indices (KeyedList.erase number hash)).Sublist
      (indices hash) :=
    List.filter_sublist.filterMap _
  constructor
  · rw [hauths]
    exact hwire.authenticating
  · intro hstate
    have hnone := hwire.unsent hstate
    rw [hnone] at hsublist
    exact List.sublist_nil.mp hsublist
  · rw [hauths]
    exact hwire.authenticated
  · intro hstate
    have hkeys := (hwire.sent hstate).filter
      fun index => putIndex block ≠ some index
    refine hlater.trans (hkeys.trans ?_)
    have hindices : indices hash = indices before ++
        ((putIndex block).toList ++ indices after) := by
      rw [hsplit]
      exact filterMap_split putIndex before after number block
    have hrest : indices (KeyedList.erase number hash) =
        indices before ++ indices after := by
      unfold indices
      rw [herase, List.filterMap_append]
    rw [hindices, hrest, List.filter_append, List.filter_append]
    have hgone : (putIndex block).toList.filter
        (fun index => putIndex block ≠ some index) = [] := by
      cases putIndex block <;> simp
    rw [hgone, List.nil_append]
    exact List.filter_sublist.append List.filter_sublist
  · exact hwire.ascending.sublist hsublist
  · exact fun index hmem => hwire.below index (hsublist.subset hmem)

theorem auths_split {before after : List (ℕ × ResponseBlock κ π)}
    {number : ℕ} {flag : Bool}
    (hsplit : hash = before ++ (number, .auth flag) :: after) :
    auths hash = auths before ++ flag :: auths after := by
  rw [hsplit]
  exact filterMap_split authFlag before after number (.auth flag)

/-- The authentication which restores the state is the first one, so that
none is left which would restore it again. -/
theorem OnWire.restoring (hwire : OnWire state hash keys putCounter)
    (hdistinct : KeyedList.Distinct hash) {number : ℕ}
    (hlookup : hash.lookup number = some (.auth true))
    (hopen : state = .authenticating ∨ state = .connected) :
    state = .authenticating ∧
      ∀ flag ∈ auths (KeyedList.erase number hash), flag = false := by
  obtain ⟨before, after, hsplit, herase, -, -⟩ := hdistinct.split hlookup
  have hauths := auths_split hsplit
  have hrest : auths (KeyedList.erase number hash) =
      auths before ++ auths after := by
    unfold auths
    rw [herase, List.filterMap_append]
  rcases hopen with hstate | hstate
  · refine ⟨hstate, ?_⟩
    obtain ⟨rest, hfirst, hall⟩ := hwire.authenticating hstate
    rw [hauths] at hfirst
    rw [hrest]
    cases hbefore : auths before with
    | nil =>
        rw [hbefore, List.nil_append, List.cons.injEq] at hfirst
        rw [List.nil_append, hfirst.2]
        exact hall
    | cons flag flags =>
        rw [hbefore, List.cons_append, List.cons.injEq] at hfirst
        have hagain := hall true (by simp [← hfirst.2])
        contradiction
  · have hfalse := hwire.authenticated hstate true (by simp [hauths])
    contradiction

/-- While the first authentication is not answered, no other one is. -/
theorem OnWire.refreshing (hwire : OnWire state hash keys putCounter)
    (hascending : (hash.map Prod.fst).Pairwise (· < ·)) {number : ℕ}
    (hlookup : hash.lookup number = some (.auth false))
    (hfirst : ∀ entry ∈ hash, (authFlag entry.2).isSome → number ≤ entry.1)
    (hopen : state = .authenticating ∨ state = .connected) :
    state = .connected := by
  rcases hopen with hstate | hstate
  · have hdistinct : KeyedList.Distinct hash :=
      hascending.imp fun hlt => hlt.ne
    obtain ⟨before, after, hsplit, -, -, -⟩ := hdistinct.split hlookup
    obtain ⟨rest, hrest, -⟩ := hwire.authenticating hstate
    rw [auths_split hsplit] at hrest
    have hbefore : true ∈ auths before := by
      cases hbefore : auths before with
      | nil => simp [hbefore] at hrest
      | cons flag flags =>
          rw [hbefore, List.cons_append, List.cons.injEq] at hrest
          simp [hrest.1]
    obtain ⟨entry, hentry, hflag⟩ := List.mem_filterMap.mp hbefore
    have hle := hfirst entry (by simp [hsplit, hentry]) (by simp [hflag])
    rw [hsplit, List.map_append, List.pairwise_append] at hascending
    have hlt := hascending.2.2 entry.1 (List.mem_map_of_mem hentry) number
      (by simp)
    omega
  · exact hstate

end OnWire

/-! ## Every event -/

variable {self : FPersistentConnection δ κ π}

theorem PutsOnWire.of_same (hwire : self.PutsOnWire)
    {next : FPersistentConnection δ κ π}
    (hstate : next.connectionState = self.connectionState)
    (hhash : next.requestCBHash = self.requestCBHash)
    (hputs : next.outstandingPuts = self.outstandingPuts)
    (hcounter : next.putCounter = self.putCounter) : next.PutsOnWire := by
  unfold PutsOnWire putKeys
  rw [hstate, hhash, hputs, hcounter]
  exact hwire

/-- Nothing waits on a connection which is not open. -/
theorem Consistent.putsOnWire_of_down (hself : self.Consistent)
    (hstate : realtimeOf self.connectionState ≠ some .connected) :
    self.PutsOnWire := by
  have hclosed := hself.requests.closed
    (by rw [hself.attempts.realtime_eq]; exact hstate)
  unfold PutsOnWire
  rw [hclosed]
  apply OnWire.closed
  · intro heq
    rw [heq] at hstate
    exact hstate rfl
  · intro heq
    rw [heq] at hstate
    exact hstate rfl

theorem PutsOnWire.record (hwire : self.PutsOnWire)
    (requests : List (Request δ κ π))
    (hflags : ∀ request ∈ requests, request.2.bind authFlag ≠ some true)
    (hputs : ∀ request ∈ requests, request.2.bind putIndex = none) :
    (self.record requests).PutsOnWire :=
  OnWire.record hwire _ requests hflags hputs

theorem restored_hash (self : FPersistentConnection δ κ π) :
    auths self.restored.requestCBHash = auths self.requestCBHash ∧
      indices self.restored.requestCBHash =
        indices self.requestCBHash ++ self.putKeys := by
  have hhash : self.restored.requestCBHash = self.requestCBHash ++
      waiting self.requestNumber ((self.listens.map Prod.snd).map
        listenRequest) ++
      waiting (self.listensSent (self.listens.map Prod.snd)).requestNumber
        (self.outstandingPuts.map putRequest) ++
      waiting (self.listensSent
        (self.listens.map Prod.snd)).putsSent.requestNumber
        (self.onDisconnectQueue.map (onDisconnectRequest (π := π))) := rfl
  rw [hhash]
  constructor
  · rw [auths_record, auths_record, auths_record]
    simp [List.filterMap_map, Function.comp_def, listenRequest, putRequest,
      onDisconnectRequest, authFlag]
  · rw [indices_record, indices_record, indices_record]
    simp [List.filterMap_map, Function.comp_def, listenRequest, putRequest,
      onDisconnectRequest, putIndex, putKeys]

theorem restored_puts (self : FPersistentConnection δ κ π) :
    self.restored.connectionState = self.connectionState ∧
      self.restored.putKeys = self.putKeys ∧
        self.restored.putCounter = self.putCounter := by
  simp only [FPersistentConnection.restored, FPersistentConnection.putsSent,
    FPersistentConnection.listensSent, FPersistentConnection.record, putKeys,
    List.map_map, true_and, and_true]
  rfl

/-- The restored connection has sent all outstanding puts. -/
theorem Consistent.putsOnWire_restored (hself : self.Consistent)
    (hstate : self.connectionState = .connected)
    (hflags : ∀ flag ∈ auths self.requestCBHash, flag = false)
    (hnone : indices self.requestCBHash = []) :
    self.restored.PutsOnWire := by
  obtain ⟨hauths, hindices⟩ := restored_hash self
  obtain ⟨hstill, hkeys, hcounter⟩ := restored_puts self
  rw [hnone, List.nil_append] at hindices
  unfold PutsOnWire
  rw [hstill, hkeys, hcounter, hstate]
  constructor
  · exact fun heq => by contradiction
  · exact fun heq => by contradiction
  · intro _
    rw [hauths]
    exact hflags
  · intro _
    rw [hindices]
  · rw [hindices]
    exact hself.puts.ascending
  · rw [hindices]
    exact hself.puts.below

theorem scheduled_state (self : FPersistentConnection δ κ π) :
    self.scheduled.connectionState = self.connectionState := by
  unfold FPersistentConnection.scheduled
  split
  next => rfl
  next => rfl

theorem disconnected_state (self : FPersistentConnection δ κ π) :
    self.disconnected.connectionState = .disconnected :=
  scheduled_state self.dropRealtime

theorem PutsOnWire.scheduled (hwire : self.PutsOnWire) :
    self.scheduled.PutsOnWire := by
  unfold FPersistentConnection.scheduled
  split
  next => exact hwire.of_same rfl rfl rfl rfl
  next => exact hwire

theorem authSent_hash (self : FPersistentConnection δ κ π)
    (credential : String) (restoreStateAfterComplete : Bool) :
    auths (self.authSent credential
        restoreStateAfterComplete).requestCBHash =
        auths self.requestCBHash ++ [restoreStateAfterComplete] ∧
      indices (self.authSent credential
        restoreStateAfterComplete).requestCBHash =
          indices self.requestCBHash := by
  unfold authSent FPersistentConnection.record
  rw [auths_record, indices_record]
  exact ⟨rfl, List.append_nil _⟩

theorem Consistent.putsOnWire_ready (hself : self.Consistent)
    (hopening : self.realtime = some .connecting) :
    self.ready.PutsOnWire := by
  have hempty := hself.requests.closed (by simp [hopening])
  have hstats : self.greeted.requestCBHash = [] ++ waiting
      self.requestNumber (if self.firstConnection then
        [(RequestAction.stats, some ResponseBlock.stats)] else
          ([] : List (Request δ κ π))) := by
    rw [← hempty]
    rfl
  have hauths : auths self.greeted.requestCBHash = [] := by
    rw [hstats, auths_record]
    cases self.firstConnection <;> rfl
  have hindices : indices self.greeted.requestCBHash = [] := by
    rw [hstats, indices_record]
    cases self.firstConnection <;> rfl
  have hstarted : self.greeted.authStarted.PutsOnWire := by
    unfold authStarted
    split
    next =>
      have hconnected := hself.greeted hopening
        (by rfl : realtimeOf .connected = _) (by simp) (by simp)
      have hflags : ∀ flag ∈ auths
          (self.greeted.inState .connected).requestCBHash, flag = false := by
        intro flag hflag
        have hnone : flag ∈ ([] : List Bool) := hauths ▸ hflag
        contradiction
      exact hconnected.putsOnWire_restored rfl hflags hindices
    next credential _ =>
      obtain ⟨hflag, hnone⟩ := authSent_hash
        (self.greeted.inState .authenticating) credential true
      have hfirst : auths (self.greeted.inState
          .authenticating).requestCBHash = [] := hauths
      have hunsent : indices (self.greeted.inState
          .authenticating).requestCBHash = [] := hindices
      rw [hfirst, List.nil_append] at hflag
      rw [hunsent] at hnone
      constructor
      · exact fun _ => ⟨[], hflag, by simp⟩
      · exact fun _ => hnone
      · exact fun heq => by contradiction
      · exact fun heq => by contradiction
      · rw [hnone]
        exact List.Pairwise.nil
      · rw [hnone]
        simp
  exact hstarted.of_same rfl rfl rfl rfl

theorem PutsOnWire.putAdded (hwire : self.PutsOnWire)
    (hnot : self.connectionState ≠ .connected) (request : PutRequest δ)
    (onComplete : κ) : (self.putAdded request onComplete).PutsOnWire where
  authenticating := hwire.authenticating
  unsent := hwire.unsent
  authenticated := hwire.authenticated
  sent := fun hstate => absurd hstate hnot
  ascending := hwire.ascending
  below := fun index hmem =>
    (hwire.below index hmem).trans (Nat.lt_succ_self _)

theorem PutsOnWire.putStarted (hwire : self.PutsOnWire)
    (hconnected : self.connectionState = .connected)
    (request : PutRequest δ) (onComplete : κ) :
    (self.putStarted request onComplete).PutsOnWire := by
  have hauths : auths (self.putStarted request onComplete).requestCBHash =
      auths self.requestCBHash := by
    have hrecord := auths_record self.requestCBHash self.requestNumber
      [putRequest
        (self.putCounter, ⟨request, onComplete, false⟩)]
    rw [List.filterMap_cons_none rfl, List.filterMap_nil,
      List.append_nil] at hrecord
    exact hrecord
  have hindices : indices (self.putStarted request onComplete).requestCBHash =
      indices self.requestCBHash ++ [self.putCounter] :=
    indices_record self.requestCBHash self.requestNumber
      [putRequest
        (self.putCounter, ⟨request, onComplete, false⟩)]
  have hkeys : (self.putStarted request onComplete).putKeys =
      self.putKeys ++ [self.putCounter] := by
    simp [putKeys, FPersistentConnection.putStarted]
  have hstate : (self.putStarted request onComplete).connectionState =
      .connected := hconnected
  have hcounter : (self.putStarted request onComplete).putCounter =
      self.putCounter + 1 := rfl
  unfold PutsOnWire
  rw [hstate, hkeys, hcounter]
  constructor
  · exact fun heq => by contradiction
  · exact fun heq => by contradiction
  · intro _
    rw [hauths]
    exact hwire.authenticated hconnected
  · intro _
    rw [hindices]
    exact (hwire.sent hconnected).append (List.Sublist.refl _)
  · rw [hindices, List.pairwise_append]
    refine ⟨hwire.ascending, List.pairwise_singleton _ _, ?_⟩
    intro index hindex other hother
    rw [List.mem_singleton.mp hother]
    exact hwire.below index hindex
  · rw [hindices]
    intro index hindex
    rcases List.mem_append.mp hindex with hold | hnew
    · exact (hwire.below index hold).trans (Nat.lt_succ_self _)
    · rw [List.mem_singleton.mp hnew]
      exact Nat.lt_succ_self _

/-- An answer to an authentication while it is the first one that waits. -/
theorem PutsOnWire.authAnswered (hwire : self.PutsOnWire)
    (hself : self.Consistent) {number : ℕ} {restore : Bool}
    (hlookup : self.requestCBHash.lookup number = some (.auth restore))
    (hfirst : ∀ entry ∈ self.requestCBHash,
      (authFlag entry.2).isSome → number ≤ entry.1)
    (response : Response) :
    ((self.answered number).authAnswered restore response).PutsOnWire := by
  have hrealtime := hself.requests.open_of_lookup hlookup
  have hanswered := hself.answered hlookup rfl
  have hopen : self.connectionState = .authenticating ∨
      self.connectionState = .connected := by
    have heq := hself.attempts.realtime_eq
    rw [hrealtime] at heq
    cases hstate : self.connectionState <;> rw [hstate] at heq <;>
      first | contradiction | simp
  have hconsistent := hanswered.authAnswered hrealtime restore response
  have hindices : indices (self.answered number).requestCBHash =
      indices self.requestCBHash := by
    obtain ⟨before, after, hsplit, herase, -, -⟩ :=
      hself.requests.distinct.split hlookup
    have hhash : (self.answered number).requestCBHash = before ++ after :=
      herase
    unfold indices
    rw [hhash, hsplit, filterMap_split, List.filterMap_append]
    rfl
  by_cases hstatus : response.status = some statusOk
  · cases restore with
    | true =>
        obtain ⟨hstate, hflags⟩ :=
          hwire.restoring hself.requests.distinct hlookup hopen
        have hstill := hanswered.inState hrealtime
          (by rfl : realtimeOf .connected = _)
        have hnone := hwire.unsent hstate
        rw [← hindices] at hnone
        have hrestored := hstill.putsOnWire_restored rfl hflags hnone
        unfold FPersistentConnection.authAnswered
        rw [if_pos hstatus, if_pos rfl]
        exact hrestored
    | false =>
        have hstate := hwire.refreshing hself.requests.ascending hlookup
          hfirst hopen
        have hsublist : (auths (self.answered number).requestCBHash).Sublist
            (auths self.requestCBHash) :=
          List.filter_sublist.filterMap _
        have hstill : ((self.answered number).inState .connected).PutsOnWire := by
          constructor
          · exact fun heq => by contradiction
          · exact fun heq => by contradiction
          · exact fun _ flag hflag =>
              hwire.authenticated hstate flag (hsublist.subset hflag)
          · intro _
            change self.putKeys.Sublist
              (indices (self.answered number).requestCBHash)
            rw [hindices]
            exact hwire.sent hstate
          · change (indices (self.answered number).requestCBHash).Pairwise _
            rw [hindices]
            exact hwire.ascending
          · change ∀ index ∈ indices (self.answered number).requestCBHash, _
            rw [hindices]
            exact hwire.below
        unfold FPersistentConnection.authAnswered
        rw [if_pos hstatus, if_neg (by simp)]
        exact hstill
  · apply hconsistent.putsOnWire_of_down
    unfold FPersistentConnection.authAnswered
    rw [if_neg hstatus, disconnected_state]
    simp [realtimeOf]

theorem sublist_putKeys (self : FPersistentConnection δ κ π)
    {block : ResponseBlock κ π} (hnot : putIndex block = none) :
    self.putKeys.Sublist
      (self.putKeys.filter fun index => putIndex block ≠ some index) := by
  rw [List.filter_eq_self.mpr]
  simp [hnot]

/-- While connected, every outstanding put waits for one answer on the open
connection; before that, none has been sent over it. -/
def SentOnce (self : FPersistentConnection δ κ π) : Prop :=
  (self.connectionState = .connected →
    ∀ index ∈ self.putKeys, (indices self.requestCBHash).count index = 1) ∧
  (self.connectionState ≠ .connected → indices self.requestCBHash = [])

theorem PutsOnWire.sentOnce (hwire : self.PutsOnWire)
    (hself : self.Consistent) : self.SentOnce := by
  constructor
  · intro hstate index hindex
    apply List.count_eq_one_of_mem
    · exact hwire.ascending.imp fun hlt => hlt.ne
    · exact (hwire.sent hstate).subset hindex
  · intro hstate
    by_cases hauthenticating : self.connectionState = .authenticating
    · exact hwire.unsent hauthenticating
    · have hclosed : self.realtime ≠ some .connected := by
        rw [hself.attempts.realtime_eq]
        cases hcase : self.connectionState <;>
          simp_all [realtimeOf]
      rw [hself.requests.closed hclosed]
      rfl

/-- The request for authentication which is answered has waited longest. -/
def InOrder (self : FPersistentConnection δ κ π) : Event δ κ π → Bool
  | .response number _ =>
      ((self.requestCBHash.lookup number).bind authFlag).isNone ||
        self.requestCBHash.all fun entry =>
          (authFlag entry.2).isNone || number ≤ entry.1
  | _ => true

section Listens

variable [DecidableEq π]

theorem PutsOnWire.responded (hwire : self.PutsOnWire)
    (hself : self.Consistent) {number : ℕ} {block : ResponseBlock κ π}
    (hlookup : self.requestCBHash.lookup number = some block)
    {response : Response}
    (horder : self.InOrder (.response number response)) :
    ((self.answered number).responded block response).PutsOnWire := by
  have hanswered : authFlag block = none → putIndex block = none →
      (self.answered number).PutsOnWire := fun hauth hput =>
    hwire.answered hself.requests.distinct hlookup hauth
      (sublist_putKeys self hput)
  cases block with
  | stats => exact hanswered rfl rfl
  | auth restore =>
      apply hwire.authAnswered hself hlookup
      intro entry hentry hflag
      have hflagged : ((self.requestCBHash.lookup number).bind
          authFlag).isNone = false := by
        rw [hlookup]
        rfl
      simp only [InOrder, hflagged, Bool.false_or, List.all_eq_true,
        Bool.or_eq_true, decide_eq_true_eq] at horder
      rcases horder entry hentry with hnone | hle
      · rw [Option.isNone_iff_eq_none] at hnone
        rw [hnone] at hflag
        contradiction
      · exact hle
  | put index onComplete =>
      have hkeys : (KeyedList.erase index self.outstandingPuts).map Prod.fst =
          self.putKeys.filter fun key => putIndex
            (ResponseBlock.put index onComplete : ResponseBlock κ π) ≠
              some key := by
        unfold putKeys KeyedList.erase
        rw [List.filter_map]
        congr 1
        apply List.filter_congr
        intro entry hentry
        simp [putIndex, eq_comm]
      have herased := hwire.answered hself.requests.distinct hlookup
        (by rfl : authFlag _ = none) (List.Sublist.refl _)
      rw [← hkeys] at herased
      simp only [FPersistentConnection.responded, onPutResponse]
      split
      next =>
        split
        next => exact herased
        next => exact herased
      next hgone =>
        have hgone : index ∉ self.putKeys := by
          intro hmem
          obtain ⟨entry, hentry, rfl⟩ := List.mem_map.mp hmem
          have hfound := KeyedList.lookup_of_mem hself.distinct_puts hentry
          apply hgone
          change (self.outstandingPuts.lookup entry.1).isSome = true
          rw [hfound]
          rfl
        apply hwire.answered hself.requests.distinct hlookup rfl
        rw [List.filter_eq_self.mpr]
        · exact List.Sublist.refl _
        · intro key hkey
          have hne : index ≠ key := by
            rintro rfl
            exact hgone hkey
          simp [putIndex, hne]
  | listen listenSpec =>
      have hstill := hanswered rfl rfl
      simp only [FPersistentConnection.responded, listenAnswered]
      split
      next => exact hstill.of_same rfl rfl rfl rfl
      next => exact hstill.of_same rfl rfl rfl rfl
  | onDisconnect callback =>
      exact (hanswered rfl rfl).of_same rfl rfl rfl rfl

theorem PutsOnWire.after (hwire : self.PutsOnWire) (hself : self.Consistent)
    {event : Event δ κ π} (hpossible : self.Possible event)
    (horder : self.InOrder event) : (self.after event).PutsOnWire := by
  have hdown : realtimeOf (self.after event).connectionState ≠
      some .connected → (self.after event).PutsOnWire :=
    (hself.after hpossible).putsOnWire_of_down
  cases event with
  | listen query tagId onComplete =>
      have hadded : (self.listenAdded query tagId onComplete).PutsOnWire :=
        hwire.of_same rfl rfl rfl rfl
      simp only [FPersistentConnection.after]
      split
      next =>
        have hrecord := hadded.record
          [listenRequest ⟨self.allocated, query, tagId, onComplete⟩]
          (by simp [listenRequest, authFlag])
          (by simp [listenRequest, putIndex])
        exact hrecord.of_same rfl rfl rfl rfl
      next => exact hadded
  | unlisten query tagId =>
      have hremoved : (self.listenRemoved query).PutsOnWire :=
        hwire.of_same rfl rfl rfl rfl
      simp only [FPersistentConnection.after]
      split
      next => exact hremoved.record _ (by simp) (by simp)
      next => exact hremoved
  | put request onComplete =>
      simp only [FPersistentConnection.after]
      split
      next hconnected =>
        exact hwire.putStarted (by simpa [canSendWrites] using hconnected)
          request onComplete
      next hnot =>
        exact hwire.putAdded (by simpa [canSendWrites] using hnot) request
          onComplete
  | onDisconnectAction tuple =>
      simp only [FPersistentConnection.after]
      split
      next =>
        exact hwire.record _ (by simp [onDisconnectRequest, authFlag])
          (by simp [onDisconnectRequest, putIndex])
      next => exact hwire.of_same rfl rfl rfl rfl
  | refreshAuthToken token =>
      have hwith : ∀ token, (self.withToken token).PutsOnWire :=
        fun token => hwire.of_same rfl rfl rfl rfl
      simp only [FPersistentConnection.after]
      split
      next =>
        cases token with
        | none => exact (hwith none).record _ (by simp) (by simp)
        | some credential =>
            exact (hwith (some credential)).record _ (by simp [authFlag])
              (by simp [putIndex])
      next => exact hwith token
  | purgeOutstandingWrites => exact hwire.fewer (List.nil_sublist _)
  | interrupt reason =>
      apply hdown
      simp only [FPersistentConnection.after, afterInterrupt]
      split
      next => simp [disconnected_state, realtimeOf]
      next => simp [givenUp, inState, realtimeOf]
  | resume reason =>
      have hresumed : (self.resumed reason).PutsOnWire :=
        hwire.of_same rfl rfl rfl rfl
      simp only [FPersistentConnection.after]
      split
      next => exact hresumed.scheduled
      next => exact hresumed
  | reconnectNow =>
      simp only [FPersistentConnection.after]
      split
      next => exact hwire.scheduled
      next => exact hwire
  | retry =>
      apply hdown
      simp [FPersistentConnection.after, afterRetry, inState, realtimeOf]
  | fetchToken attempt token =>
      have hfetched : (self.fetched attempt).PutsOnWire :=
        hwire.of_same rfl rfl rfl rfl
      by_cases hcurrent : attempt = self.currentFetchTokenAttempt
      · have hstate := hself.attempts.fetched (hcurrent ▸ hpossible.1)
        have hnotOpen : realtimeOf (self.fetched attempt).connectionState ≠
            some .connected := by
          change realtimeOf self.connectionState ≠ some .connected
          rcases hstate with hgetting | hstopped
          · simp [hgetting, realtimeOf]
          · simp [hstopped, realtimeOf]
        apply hdown
        simp only [FPersistentConnection.after, afterFetch, if_pos hcurrent]
        cases token with
        | none =>
            dsimp only
            rw [scheduled_state]
            simp [inState, realtimeOf]
        | some token =>
            dsimp only
            split
            next => simp [inState, withToken, realtimeOf]
            next => exact hnotOpen
      · simp only [FPersistentConnection.after, afterFetch, if_neg hcurrent]
        exact hfetched
  | handshake =>
      simp only [FPersistentConnection.after]
      split
      next hopening => exact hself.putsOnWire_ready hopening
      next => exact hwire
  | response number response =>
      simp only [FPersistentConnection.after, afterResponse]
      split
      next => exact hwire
      next block hlookup => exact hwire.responded hself hlookup horder
  | authRevoked =>
      simp only [FPersistentConnection.after] at hdown ⊢
      split
      next hopen =>
        rw [if_pos hopen, disconnected_state] at hdown
        exact hdown (by simp [realtimeOf])
      next => exact hwire.of_same rfl rfl rfl rfl
  | listenRevoked path => exact hwire.of_same rfl rfl rfl rfl
  | shutdown =>
      apply hdown
      simp only [FPersistentConnection.after, afterInterrupt]
      split
      next => simp [disconnected_state, realtimeOf]
      next => simp [givenUp, inState, realtimeOf]
  | connectionLost =>
      apply hdown
      simp [FPersistentConnection.after, disconnected_state, realtimeOf]

/-! ## Whole runs -/

/-- Authentications are answered in their order. -/
def authInOrder
    (outcome : Except ConnectionFailure (FPersistentConnection δ κ π))
    (event : Event δ κ π)
    (_ : Except ConnectionFailure (FPersistentConnection δ κ π)) : Prop :=
  ∀ self, outcome = Except.ok self → self.InOrder event

def sentOnce
    (outcome : Except ConnectionFailure (FPersistentConnection δ κ π)) :
    Prop :=
  ∃ self, outcome = Except.ok self ∧ self.SentOnce

/-- What a run keeps while the authentications are answered in order. -/
def wired
    (outcome : Except ConnectionFailure (FPersistentConnection δ κ π)) :
    Prop :=
  ∃ self, outcome = Except.ok self ∧ self.Consistent ∧ self.PutsOnWire

theorem sentOnce_of_authInOrder {events : List (Event δ κ π)}
    (horder : (machine δ κ π).AllSteps authInOrder (Except.ok init) events) :
    (machine δ κ π).AllStates sentOnce (Except.ok init) events := by
  have hinit : (init : FPersistentConnection δ κ π).PutsOnWire :=
    consistent_init.putsOnWire_of_down (by simp [init, realtimeOf])
  have hstart : wired (Except.ok
      (init : FPersistentConnection δ κ π)) :=
    ⟨init, rfl, consistent_init, hinit⟩
  refine EventMachine.allStates_of_guard ?_ ?_ hstart events horder
  · rintro _ ⟨self, rfl, hself, hwire⟩
    exact ⟨self, rfl, hwire.sentOnce hself⟩
  · rintro _ event next ⟨self, rfl, hself, hwire⟩ hstep hguard
    obtain ⟨hpossible, rfl⟩ := hself.step_iff.mp hstep
    exact ⟨_, rfl, hself.after hpossible,
      hwire.after hself hpossible (hguard self rfl)⟩

/-- The order of the answers, along the states after each event. -/
def AllInOrder (self : FPersistentConnection δ κ π) :
    List (Event δ κ π) → Bool
  | [] => true
  | event :: events =>
      self.InOrder event && (self.after event).AllInOrder events

theorem Consistent.allSteps_authInOrder (hself : self.Consistent)
    {events : List (Event δ κ π)} (horder : self.AllInOrder events = true) :
    (machine δ κ π).AllSteps authInOrder (Except.ok self) events := by
  induction events generalizing self with
  | nil => trivial
  | cons event events ih =>
      rw [AllInOrder, Bool.and_eq_true] at horder
      intro next hnext
      obtain ⟨hpossible, rfl⟩ := hself.step_iff.mp hnext
      refine ⟨?_, ih (hself.after hpossible) horder.2⟩
      rintro other hother
      obtain rfl := Except.ok.inj hother
      exact horder.1

/-- A put is made while the token is being checked, and the token is
refreshed. -/
def putWhileAuthenticating : List (Event ℕ String ℕ) :=
  [.resume .waitingForOpen, .retry, .fetchToken 1 (some (some "token")),
    .handshake, .put ⟨.put, "stocks/AAPL", 1, none⟩ "saved",
    .refreshAuthToken (some "newer"), .response 2 ⟨some "ok", none⟩,
    .response 3 ⟨some "ok", none⟩]

theorem sentOnce_putWhileAuthenticating :
    ∃ self, (machine ℕ String ℕ).run (Except.ok init)
        putWhileAuthenticating = some (Except.ok self) ∧
      self.connectionState = .connected ∧
        (indices self.requestCBHash).count 1 = 1 := by
  have hpossible : init.AllPossible putWhileAuthenticating := by decide
  have hrun := consistent_init.run_eq hpossible
  have hall := sentOnce_of_authInOrder
    (consistent_init.allSteps_authInOrder
      (by decide : init.AllInOrder putWhileAuthenticating = true))
  obtain ⟨self, hself, hsent⟩ := hall.of_run hrun
  refine ⟨self, hself ▸ hrun, ?_⟩
  obtain rfl := Except.ok.inj hself
  exact ⟨rfl, hsent.1 rfl 1 (by decide)⟩

end Listens

end FPersistentConnection

end FirebaseDatabase
