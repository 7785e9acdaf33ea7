import Stockly.ConnectionSteps

/-!
# No run of a connection fails

Between two events the state of a connection, its realtime connection, the
retry and the fetches of tokens agree with each other, the blocks which wait
belong to the open realtime connection, and the unanswered listens are counted
right.  So no assertion of the source fails in any order of events, and
nothing is ever sent over a connection which is not open yet.
-/

universe u v w

namespace FirebaseDatabase

namespace FPersistentConnection

variable {δ : Type u} {κ : Type v} {π : Type w}

def realtimeOf : ConnectionState → Option RealtimeState
  | .disconnected => none
  | .gettingToken => none
  | .connecting => some .connecting
  | .authenticating => some .connected
  | .connected => some .connected

/-- An attempt is scheduled or under way, unless a reason forbids it. -/
structure Attempts (state : ConnectionState)
    (realtime : Option RealtimeState) (reasons : Finset InterruptReason)
    (scheduledRetry : Option Bool) (current : ℕ) (fetches : List ℕ) :
    Prop where
  realtime_eq : realtime = realtimeOf state
  scheduled_iff : scheduledRetry.isSome ↔
    state = .disconnected ∧ reasons = ∅
  interrupted : reasons ≠ ∅ → state = .disconnected
  nodup : fetches.Nodup
  le_current : ∀ attempt ∈ fetches, attempt ≤ current
  fetching : state = .gettingToken → current ∈ fetches
  fetched : current ∈ fetches →
    state = .gettingToken ∨ state = .disconnected

def isListen : ResponseBlock κ π → Bool
  | .listen _ => true
  | _ => false

/-- The blocks wait for requests of the open connection, in their order, and
the listens among them are counted. -/
structure Requests (realtime : Option RealtimeState)
    (hash : List (ℕ × ResponseBlock κ π)) (requestNumber : ℕ) (count : ℤ) :
    Prop where
  closed : realtime ≠ some .connected → hash = []
  ascending : (hash.map Prod.fst).Pairwise (· < ·)
  below : ∀ entry ∈ hash, entry.1 < requestNumber
  count_eq : count = (hash.countP fun entry => isListen entry.2 : ℕ)

structure Puts (indices : List ℕ) (putCounter : ℕ) : Prop where
  ascending : indices.Pairwise (· < ·)
  below : ∀ index ∈ indices, index < putCounter

structure Consistent (connection : FPersistentConnection δ κ π) : Prop where
  attempts : Attempts connection.connectionState connection.realtime
    connection.interruptReasons connection.scheduledRetry
    connection.currentFetchTokenAttempt connection.fetches
  requests : Requests connection.realtime connection.requestCBHash
    connection.requestNumber connection.unackedListensCount
  puts : Puts (connection.outstandingPuts.map Prod.fst) connection.putCounter
  shaped : ∀ entry ∈ connection.listens, entry.1.hasShape = true

theorem consistent_init : (init : FPersistentConnection δ κ π).Consistent where
  attempts := by
    constructor <;> simp [init, realtimeOf]
  requests := by
    constructor <;> simp [init]
  puts := by
    constructor <;> simp [init]
  shaped := by simp [init]

/-! ## Attempts -/

section Attempts

variable {state : ConnectionState} {realtime : Option RealtimeState}
  {reasons : Finset InterruptReason} {scheduledRetry : Option Bool}
  {current : ℕ} {fetches : List ℕ}

theorem Attempts.open_of_connected
    (hattempts : Attempts state realtime reasons scheduledRetry current
      fetches)
    (hstate : state = .authenticating ∨ state = .connected) :
    realtime = some .connected := by
  rw [hattempts.realtime_eq]
  rcases hstate with rfl | rfl <;> rfl

theorem Attempts.not_scheduled
    (hattempts : Attempts state realtime reasons scheduledRetry current
      fetches)
    (hstate : state ≠ .disconnected) : scheduledRetry = none := by
  rw [← Option.not_isSome_iff_eq_none, hattempts.scheduled_iff]
  exact fun hboth => hstate hboth.1

theorem Attempts.state_of_realtime
    (hattempts : Attempts state realtime reasons scheduledRetry current
      fetches) (hopen : realtime.isSome) : state ≠ .disconnected := by
  rintro rfl
  rw [hattempts.realtime_eq] at hopen
  contradiction

/-- The connection comes up: it is neither fetching a token nor waiting. -/
theorem Attempts.advance
    (hattempts : Attempts state realtime reasons scheduledRetry current
      fetches)
    (hstate : state ≠ .disconnected) (hnotGetting : state ≠ .gettingToken)
    {later : ConnectionState} (hlater : later ≠ .disconnected)
    (hlaterNot : later ≠ .gettingToken) :
    Attempts later (realtimeOf later) reasons scheduledRetry current
      fetches where
  realtime_eq := rfl
  scheduled_iff := by
    rw [hattempts.not_scheduled hstate]
    simp [hlater]
  interrupted := fun hreasons =>
    absurd (hattempts.interrupted hreasons) hstate
  nodup := hattempts.nodup
  le_current := hattempts.le_current
  fetching := fun heq => absurd heq hlaterNot
  fetched := fun hmem => by
    rcases hattempts.fetched hmem with hgetting | hstopped
    · exact absurd hgetting hnotGetting
    · exact absurd hstopped hstate

/-- The connection is given up, and the next attempt is scheduled exactly
when nothing forbids it. -/
theorem Attempts.stop
    (hattempts : Attempts state realtime reasons scheduledRetry current
      fetches) (later : Finset InterruptReason) (retry : Option Bool)
    (hretry : retry.isSome ↔ later = ∅) :
    Attempts .disconnected none later retry current fetches where
  realtime_eq := rfl
  scheduled_iff := by simp [hretry]
  interrupted := fun _ => rfl
  nodup := hattempts.nodup
  le_current := hattempts.le_current
  fetching := fun heq => by contradiction
  fetched := fun _ => Or.inr rfl

theorem Attempts.erase
    (hattempts : Attempts state realtime reasons scheduledRetry current
      fetches) {attempt : ℕ}
    (hother : attempt = current → state ≠ .gettingToken) :
    Attempts state realtime reasons scheduledRetry current
      (fetches.erase attempt) where
  realtime_eq := hattempts.realtime_eq
  scheduled_iff := hattempts.scheduled_iff
  interrupted := hattempts.interrupted
  nodup := hattempts.nodup.erase attempt
  le_current := fun other hother =>
    hattempts.le_current other (List.mem_of_mem_erase hother)
  fetching := fun hgetting => by
    have hne : current ≠ attempt := by
      rintro rfl
      exact hother rfl hgetting
    exact (List.mem_erase_of_ne hne).mpr (hattempts.fetching hgetting)
  fetched := fun hmem => hattempts.fetched (List.mem_of_mem_erase hmem)

theorem Attempts.retry
    (hattempts : Attempts state realtime reasons scheduledRetry current
      fetches) (hscheduled : scheduledRetry.isSome) :
    Attempts .gettingToken none reasons none (current + 1)
      (fetches ++ [current + 1]) where
  realtime_eq := rfl
  scheduled_iff := by simp
  interrupted := fun hreasons =>
    absurd (hattempts.scheduled_iff.mp hscheduled).2 hreasons
  nodup := by
    rw [List.nodup_append]
    refine ⟨hattempts.nodup, by simp, ?_⟩
    intro attempt hattempt other hother heq
    have hle := hattempts.le_current attempt hattempt
    have hnew : other = current + 1 := by simpa using hother
    omega
  le_current := fun attempt hattempt => by
    rcases List.mem_append.mp hattempt with hold | hnew
    · have hle := hattempts.le_current attempt hold
      omega
    · have hnew : attempt = current + 1 := by simpa using hnew
      omega
  fetching := fun _ => by simp
  fetched := fun _ => Or.inl rfl

/-- A reason is withdrawn, and either others remain or nothing waits for
it. -/
theorem Attempts.resume
    (hattempts : Attempts state realtime reasons scheduledRetry current
      fetches) {later : Finset InterruptReason} (hlater : later ⊆ reasons)
    (hforbidden : state = .disconnected → later ≠ ∅) :
    Attempts state realtime later scheduledRetry current fetches where
  realtime_eq := hattempts.realtime_eq
  scheduled_iff := by
    rw [hattempts.scheduled_iff]
    constructor
    · rintro ⟨hstate, rfl⟩
      exact ⟨hstate, Finset.subset_empty.mp hlater⟩
    · rintro ⟨hstate, hnone⟩
      exact absurd hnone (hforbidden hstate)
  interrupted := fun hreasons => by
    apply hattempts.interrupted
    rintro rfl
    exact hreasons (Finset.subset_empty.mp hlater)
  nodup := hattempts.nodup
  le_current := hattempts.le_current
  fetching := hattempts.fetching
  fetched := hattempts.fetched

theorem Attempts.connect
    (hattempts : Attempts state realtime reasons scheduledRetry current
      fetches) (hgetting : state = .gettingToken) :
    Attempts .connecting (some .connecting) reasons scheduledRetry current
      (fetches.erase current) where
  realtime_eq := rfl
  scheduled_iff := by
    rw [hattempts.not_scheduled (by simp [hgetting])]
    simp
  interrupted := fun hreasons => by
    have hstopped := hattempts.interrupted hreasons
    rw [hgetting] at hstopped
    contradiction
  nodup := hattempts.nodup.erase current
  le_current := fun other hother =>
    hattempts.le_current other (List.mem_of_mem_erase hother)
  fetching := fun heq => by contradiction
  fetched := fun hmem =>
    absurd rfl (hattempts.nodup.mem_erase_iff.mp hmem).1

end Attempts

/-! ## Requests -/

theorem waiting_keys (first : ℕ) (requests : List (Request δ κ π)) :
    (∀ entry ∈ waiting first requests,
      first ≤ entry.1 ∧ entry.1 < first + requests.length) ∧
      ((waiting first requests).map Prod.fst).Pairwise (· < ·) := by
  induction requests generalizing first with
  | nil => simp
  | cons request requests ih =>
      obtain ⟨hbounds, hascending⟩ := ih (first + 1)
      rw [waiting_cons]
      cases hblock : request.2 with
      | none =>
          refine ⟨fun entry hentry => ?_, by simpa using hascending⟩
          have hentry := hbounds entry (by simpa using hentry)
          rw [List.length_cons]
          omega
      | some block =>
          constructor
          · intro entry hentry
            rw [List.length_cons]
            rcases List.mem_append.mp hentry with hhere | hrest
            · have hhere : entry = (first, block) := by simpa using hhere
              rw [hhere]
              omega
            · have hrest := hbounds entry hrest
              omega
          · simp only [Option.map_some, Option.toList_some,
              List.singleton_append, List.map_cons, List.pairwise_cons]
            refine ⟨fun key hkey => ?_, hascending⟩
            obtain ⟨entry, hentry, rfl⟩ := List.mem_map.mp hkey
            have hentry := hbounds entry hentry
            omega

theorem countP_waiting (first : ℕ) (requests : List (Request δ κ π))
    (property : ResponseBlock κ π → Bool) :
    (waiting first requests).countP (fun entry => property entry.2) =
      requests.countP fun request => request.2.any property := by
  induction requests generalizing first with
  | nil => rfl
  | cons request requests ih =>
      rw [waiting_cons, List.countP_append, ih, List.countP_cons]
      cases request.2 with
      | none => simp
      | some block => simp [List.countP_cons, Nat.add_comm]

section Requests

variable {realtime : Option RealtimeState}
  {hash : List (ℕ × ResponseBlock κ π)} {requestNumber : ℕ} {count : ℤ}

theorem Requests.record
    (hrequests : Requests realtime hash requestNumber count)
    (requests : List (Request δ κ π)) (later : ℤ)
    (hlater : later = count +
      (requests.countP fun request => request.2.any isListen : ℕ)) :
    Requests (some .connected) (hash ++ waiting requestNumber requests)
      (requestNumber + requests.length) later where
  closed := fun hclosed => absurd rfl hclosed
  ascending := by
    obtain ⟨hbounds, hascending⟩ := waiting_keys requestNumber requests
    rw [List.map_append, List.pairwise_append]
    refine ⟨hrequests.ascending, hascending, ?_⟩
    intro first hfirst second hsecond
    obtain ⟨entry, hentry, rfl⟩ := List.mem_map.mp hfirst
    obtain ⟨other, hother, rfl⟩ := List.mem_map.mp hsecond
    exact (hrequests.below entry hentry).trans_le (hbounds other hother).1
  below := fun entry hentry => by
    obtain ⟨hbounds, -⟩ := waiting_keys requestNumber requests
    rcases List.mem_append.mp hentry with hold | hnew
    · exact (hrequests.below entry hold).trans_le (Nat.le_add_right _ _)
    · exact (hbounds entry hnew).2
  count_eq := by
    rw [List.countP_append, countP_waiting, hlater, hrequests.count_eq]
    push_cast
    rfl

theorem Requests.reset (requestNumber : ℕ)
    (realtime : Option RealtimeState) :
    Requests realtime ([] : List (ℕ × ResponseBlock κ π)) requestNumber
      0 := by
  constructor <;> simp

theorem Requests.distinct
    (hrequests : Requests realtime hash requestNumber count) :
    KeyedList.Distinct hash :=
  hrequests.ascending.imp fun hlt => hlt.ne

theorem Requests.erase
    (hrequests : Requests realtime hash requestNumber count) {number : ℕ}
    {block : ResponseBlock κ π}
    (hlookup : hash.lookup number = some block) {later : ℤ}
    (hlater : later = count - if isListen block then 1 else 0) :
    Requests realtime (KeyedList.erase number hash) requestNumber later := by
  have hsublist : (KeyedList.erase number hash).Sublist hash :=
    List.filter_sublist
  obtain ⟨before, after, hsplit, herase, -, -⟩ :=
    hrequests.distinct.split hlookup
  constructor
  · intro hclosed
    rw [hrequests.closed hclosed]
    rfl
  · exact hrequests.ascending.sublist (hsublist.map Prod.fst)
  · exact fun entry hentry => hrequests.below entry (hsublist.subset hentry)
  · rw [herase, hlater, hrequests.count_eq, hsplit]
    simp only [List.countP_append, List.countP_cons]
    cases isListen block with
    | false => simp
    | true =>
        push_cast
        simp
        ring

theorem Requests.one_le
    (hrequests : Requests realtime hash requestNumber count) {number : ℕ}
    {block : ResponseBlock κ π}
    (hlookup : hash.lookup number = some block)
    (hlisten : isListen block = true) : 1 ≤ count := by
  have hpos : 0 < hash.countP fun entry => isListen entry.2 :=
    List.countP_pos_iff.mpr
      ⟨(number, block), KeyedList.mem_of_lookup hlookup, hlisten⟩
  rw [hrequests.count_eq]
  exact_mod_cast hpos

theorem Requests.open_of_lookup
    (hrequests : Requests realtime hash requestNumber count) {number : ℕ}
    {block : ResponseBlock κ π}
    (hlookup : hash.lookup number = some block) :
    realtime = some .connected := by
  by_contra hclosed
  rw [hrequests.closed hclosed] at hlookup
  contradiction

end Requests

/-! ## Puts -/

section Puts

variable {indices : List ℕ} {putCounter : ℕ}

theorem Puts.notMem (hputs : Puts indices putCounter) :
    putCounter ∉ indices := by
  intro hmem
  exact absurd (hputs.below putCounter hmem) (lt_irrefl putCounter)

theorem Puts.concat (hputs : Puts indices putCounter) :
    Puts (indices ++ [putCounter]) (putCounter + 1) where
  ascending := by
    rw [List.pairwise_append]
    refine ⟨hputs.ascending, List.pairwise_singleton _ _, ?_⟩
    intro index hindex other hother
    rw [List.mem_singleton.mp hother]
    exact hputs.below index hindex
  below := fun index hindex => by
    rcases List.mem_append.mp hindex with hold | hnew
    · exact (hputs.below index hold).trans (Nat.lt_succ_self _)
    · rw [List.mem_singleton.mp hnew]
      exact Nat.lt_succ_self _

theorem Puts.sublist (hputs : Puts indices putCounter) {later : List ℕ}
    (hsublist : later.Sublist indices) : Puts later putCounter where
  ascending := hputs.ascending.sublist hsublist
  below := fun index hindex => hputs.below index (hsublist.subset hindex)

end Puts

/-! ## Every step keeps the invariant -/

variable {self : FPersistentConnection δ κ π}

theorem Consistent.distinct_puts (hself : self.Consistent) :
    KeyedList.Distinct self.outstandingPuts :=
  hself.puts.ascending.imp fun hlt => hlt.ne

theorem Consistent.record (hself : self.Consistent)
    (hopen : self.realtime = some .connected)
    (requests : List (Request δ κ π))
    (hlistens : ∀ request ∈ requests, request.2.any isListen = false) :
    (self.record requests).Consistent where
  attempts := hself.attempts
  requests := by
    have hnone : (requests.countP fun request =>
        request.2.any isListen) = 0 := by
      rw [List.countP_eq_zero]
      intro request hrequest
      simp [hlistens request hrequest]
    have hrecord := hself.requests.record requests
      self.unackedListensCount (by rw [hnone]; simp)
    rw [← hopen] at hrecord
    exact hrecord
  puts := hself.puts
  shaped := hself.shaped

theorem Consistent.listensSent (hself : self.Consistent)
    (hopen : self.realtime = some .connected)
    (specs : List (FOutstandingQuery κ π)) :
    (self.listensSent specs).Consistent where
  attempts := hself.attempts
  requests := by
    have hall : ((specs.map listenRequest).countP
        fun request : Request δ κ π => request.2.any isListen) =
          specs.length := by
      rw [List.countP_map, List.countP_eq_length]
      intro spec hspec
      rfl
    have hrecord := hself.requests.record (δ := δ) (specs.map listenRequest)
      (self.unackedListensCount + specs.length) (by rw [hall])
    rw [← hopen] at hrecord
    exact hrecord
  puts := hself.puts
  shaped := hself.shaped

theorem Consistent.putsSent (hself : self.Consistent)
    (hopen : self.realtime = some .connected) :
    self.putsSent.Consistent where
  attempts := hself.attempts
  shaped := hself.shaped
  requests := by
    refine (hself.record hopen (self.outstandingPuts.map putRequest)
      fun request hrequest => ?_).requests
    obtain ⟨entry, -, rfl⟩ := List.mem_map.mp hrequest
    rfl
  puts := by
    have hkeys : (self.outstandingPuts.map sentEntry).map Prod.fst =
        self.outstandingPuts.map Prod.fst := by
      rw [List.map_map]
      rfl
    have hputs := hself.puts
    rw [← hkeys] at hputs
    exact hputs

theorem Consistent.restored (hself : self.Consistent)
    (hopen : self.realtime = some .connected) :
    self.restored.Consistent := by
  have hsent := (hself.listensSent hopen (self.listens.map
    Prod.snd)).putsSent hopen
  have hqueue := hsent.record hopen
    (self.onDisconnectQueue.map onDisconnectRequest) fun request hrequest => by
      obtain ⟨tuple, -, rfl⟩ := List.mem_map.mp hrequest
      rfl
  exact ⟨hqueue.attempts, hqueue.requests, hqueue.puts, hqueue.shaped⟩

theorem Consistent.inState (hself : self.Consistent)
    (hopen : self.realtime = some .connected) {state : ConnectionState}
    (hstate : realtimeOf state = some .connected) :
    (self.inState state).Consistent where
  attempts := by
    have hnow : self.connectionState ≠ .disconnected ∧
        self.connectionState ≠ .gettingToken := by
      have heq := hself.attempts.realtime_eq
      rw [hopen] at heq
      constructor
      · intro hdisconnected
        rw [hdisconnected] at heq
        contradiction
      · intro hgetting
        rw [hgetting] at heq
        contradiction
    have hlater : state ≠ .disconnected ∧ state ≠ .gettingToken := by
      constructor
      · rintro rfl
        contradiction
      · rintro rfl
        contradiction
    have hadvance := hself.attempts.advance hnow.1 hnow.2 hlater.1 hlater.2
    rw [hstate, ← hopen] at hadvance
    exact hadvance
  requests := hself.requests
  puts := hself.puts
  shaped := hself.shaped

/-- A connection which is down, with no retry that a reason forbids. -/
theorem Consistent.scheduled (hself : self.Consistent)
    (connection : FPersistentConnection δ κ π)
    (hstate : connection.connectionState = .disconnected)
    (hclosed : connection.realtime = none)
    (hretry : connection.interruptReasons ≠ ∅ →
      connection.scheduledRetry = none)
    (hcurrent : connection.currentFetchTokenAttempt =
      self.currentFetchTokenAttempt)
    (hfetches : connection.fetches.Sublist self.fetches)
    (hrequests : connection.requestCBHash = [])
    (hcount : connection.unackedListensCount = 0)
    (hputs : Puts (connection.outstandingPuts.map Prod.fst)
      connection.putCounter)
    (hshaped : ∀ entry ∈ connection.listens, entry.1.hasShape = true) :
    connection.scheduled.Consistent := by
  have hattempts : ∀ retry : Option Bool,
      (retry.isSome ↔ connection.interruptReasons = ∅) →
      Attempts .disconnected none connection.interruptReasons retry
        connection.currentFetchTokenAttempt connection.fetches := by
    intro retry hiff
    rw [hcurrent]
    constructor
    · rfl
    · simp [hiff]
    · exact fun _ => rfl
    · exact hself.attempts.nodup.sublist hfetches
    · exact fun attempt hmem =>
        hself.attempts.le_current attempt (hfetches.subset hmem)
    · exact fun heq => by contradiction
    · exact fun _ => Or.inr rfl
  have hempty := Requests.reset (κ := κ) (π := π) connection.requestNumber none
  rw [← hrequests, ← hcount] at hempty
  unfold FPersistentConnection.scheduled
  split
  next hreasons =>
    have hreasons : connection.interruptReasons = ∅ := by
      simpa [shouldReconnect] using hreasons
    have hnow := hattempts (some connection.forceAuthTokenRefresh)
      (by simp [hreasons])
    rw [← hstate, ← hclosed] at hnow
    rw [← hclosed] at hempty
    exact ⟨hnow, hempty, hputs, hshaped⟩
  next hreasons =>
    have hreasons : connection.interruptReasons ≠ ∅ := by
      simpa [shouldReconnect] using hreasons
    have hnow := hattempts connection.scheduledRetry
      (by simp [hretry hreasons, hreasons])
    rw [← hstate, ← hclosed] at hnow
    rw [← hclosed] at hempty
    exact ⟨hnow, hempty, hputs, hshaped⟩

theorem Consistent.disconnected (hself : self.Consistent)
    (connection : FPersistentConnection δ κ π)
    (hretry : connection.interruptReasons ≠ ∅ →
      connection.scheduledRetry = none)
    (hcurrent : connection.currentFetchTokenAttempt =
      self.currentFetchTokenAttempt)
    (hfetches : connection.fetches = self.fetches)
    (hcounter : connection.putCounter = self.putCounter)
    (hputs : connection.outstandingPuts = self.outstandingPuts)
    (hlistens : connection.listens = self.listens) :
    connection.disconnected.Consistent := by
  have hshaped : ∀ entry ∈ connection.listens, entry.1.hasShape = true :=
    hlistens ▸ hself.shaped
  refine hself.scheduled connection.dropRealtime rfl rfl hretry hcurrent
    (hfetches ▸ List.Sublist.refl _) rfl rfl ?_ hshaped
  have hsublist : (connection.dropRealtime.outstandingPuts.map
      Prod.fst).Sublist (self.outstandingPuts.map Prod.fst) := by
    rw [← hputs]
    exact List.filter_sublist.map Prod.fst
  have hcounter : connection.dropRealtime.putCounter = self.putCounter :=
    hcounter
  rw [hcounter]
  exact hself.puts.sublist hsublist

theorem Consistent.down (hself : self.Consistent)
    (hstate : realtimeOf self.connectionState = none) :
    self.realtime = none ∧ self.requestCBHash = [] ∧
      self.unackedListensCount = 0 := by
  have hclosed : self.realtime = none := by
    rw [hself.attempts.realtime_eq, hstate]
  have hempty := hself.requests.closed (by simp [hclosed])
  refine ⟨hclosed, hempty, ?_⟩
  rw [hself.requests.count_eq, hempty]
  rfl

/-- Reasons which no longer forbid it let an attempt be scheduled. -/
theorem Consistent.rescheduled (hself : self.Consistent)
    (connection : FPersistentConnection δ κ π)
    (hstate : self.connectionState = .disconnected)
    (hconnection : connection = { self with
      interruptReasons := connection.interruptReasons })
    (hreasons : connection.interruptReasons ⊆ self.interruptReasons) :
    connection.scheduled.Consistent := by
  obtain ⟨hclosed, hempty, hcount⟩ := hself.down (by rw [hstate]; rfl)
  apply hself.scheduled connection
  · rw [hconnection]
    exact hstate
  · rw [hconnection]
    exact hclosed
  · intro hforbidden
    rw [hconnection, ← Option.not_isSome_iff_eq_none]
    intro hscheduled
    have hnone := (hself.attempts.scheduled_iff.mp hscheduled).2
    exact hforbidden (Finset.subset_empty.mp (hnone ▸ hreasons))
  · rw [hconnection]
  · rw [hconnection]
  · rw [hconnection]
    exact hempty
  · rw [hconnection]
    exact hcount
  · rw [hconnection]
    exact hself.puts
  · rw [hconnection]
    exact hself.shaped

theorem Consistent.afterInterrupt (hself : self.Consistent)
    (reason : InterruptReason) : (self.afterInterrupt reason).Consistent := by
  unfold FPersistentConnection.afterInterrupt
  split
  next hopen =>
    have hstate := hself.attempts.state_of_realtime hopen
    exact hself.disconnected (self.interrupted reason)
      (fun _ => hself.attempts.not_scheduled hstate) rfl rfl rfl rfl rfl
  next hclosed =>
    have hclosed : self.realtime = none := by simpa using hclosed
    have hrequests : Requests self.realtime self.requestCBHash
      self.requestNumber self.unackedListensCount := hself.requests
    have hreasons : insert reason self.interruptReasons ≠ ∅ :=
      Finset.insert_ne_empty _ _
    constructor
    · have hstop := hself.attempts.stop
        (insert reason self.interruptReasons) none (by simp [hreasons])
      rw [← hclosed] at hstop
      exact hstop
    · exact hrequests
    · exact hself.puts
    · exact hself.shaped

theorem Consistent.afterFetch (hself : self.Consistent) {attempt : ℕ}
    (hmem : attempt ∈ self.fetches) (token : Option (Option String)) :
    (self.afterFetch attempt token).Consistent := by
  have hother (hne : attempt = self.currentFetchTokenAttempt →
      self.connectionState ≠ .gettingToken) :
      (self.fetched attempt).Consistent :=
    ⟨hself.attempts.erase hne, hself.requests, hself.puts, hself.shaped⟩
  unfold FPersistentConnection.afterFetch
  split
  next hcurrent =>
    subst hcurrent
    have hstate := hself.attempts.fetched hmem
    obtain ⟨hclosed, hempty, hcount⟩ := hself.down (by
      rcases hstate with hgetting | hstopped
      · rw [hgetting]
        rfl
      · rw [hstopped]
        rfl)
    cases token with
    | none =>
        apply hself.scheduled
          ((self.fetched
            self.currentFetchTokenAttempt).inState .disconnected) rfl
          hclosed _ rfl List.erase_sublist hempty hcount hself.puts
          hself.shaped
        intro hreasons
        rw [← Option.not_isSome_iff_eq_none]
        intro hscheduled
        exact hreasons (hself.attempts.scheduled_iff.mp hscheduled).2
    | some token =>
        by_cases hgetting : self.connectionState = .gettingToken
        · simp only [hgetting, if_true]
          have hconnect := hself.attempts.connect hgetting
          have hrequests := Requests.reset (κ := κ) (π := π)
            self.requestNumber (some .connecting)
          rw [← hempty, ← hcount] at hrequests
          exact ⟨hconnect, hrequests, hself.puts, hself.shaped⟩
        · simp only [hgetting, if_false]
          exact hother fun _ => hgetting
  next hnot => exact hother fun heq => absurd heq hnot

theorem Consistent.authSent (hself : self.Consistent)
    (hopen : self.realtime = some .connected) (credential : String)
    (restoreStateAfterComplete : Bool) :
    (self.authSent credential restoreStateAfterComplete).Consistent :=
  hself.record hopen _ (by simp [isListen])

theorem Consistent.state_of_opening (hself : self.Consistent)
    (hopening : self.realtime = some .connecting) :
    self.connectionState = .connecting := by
  have heq := hself.attempts.realtime_eq
  rw [hopening] at heq
  cases hcase : self.connectionState <;> rw [hcase] at heq <;>
    first | rfl | contradiction

/-- The greeted connection, whichever of the two open states comes next. -/
theorem Consistent.greeted (hself : self.Consistent)
    (hopening : self.realtime = some .connecting) {state : ConnectionState}
    (hopen : realtimeOf state = some .connected)
    (hdisconnected : state ≠ .disconnected)
    (hgetting : state ≠ .gettingToken) :
    (self.greeted.inState state).Consistent := by
  have hstate := hself.state_of_opening hopening
  have hopened : (self.opened.inState state).Consistent := by
    have hadvance := hself.attempts.advance (by simp [hstate])
      (by simp [hstate]) hdisconnected hgetting
    have hrequests := hself.requests.record (δ := δ) []
      self.unackedListensCount (by simp)
    rw [hopen] at hadvance
    simp only [waiting_nil, List.append_nil, List.length_nil,
      Nat.add_zero] at hrequests
    exact ⟨hadvance, hrequests, hself.puts, hself.shaped⟩
  apply hopened.record rfl
  intro request hrequest
  cases hfirst : self.firstConnection with
  | true =>
      have hstats : request = (.stats, some .stats) := by
        simpa [hfirst] using hrequest
      rw [hstats]
      rfl
  | false => simp [hfirst] at hrequest

theorem Consistent.ready (hself : self.Consistent)
    (hopening : self.realtime = some .connecting) :
    self.ready.Consistent := by
  have hstarted : self.greeted.authStarted.Consistent := by
    unfold authStarted
    split
    next =>
      have hconnected := hself.greeted hopening
        (by rfl : realtimeOf .connected = _) (by simp) (by simp)
      exact hconnected.restored rfl
    next =>
      have hauthenticating := hself.greeted hopening
        (by rfl : realtimeOf .authenticating = _) (by simp) (by simp)
      exact hauthenticating.authSent rfl _ true
  exact ⟨hstarted.attempts, hstarted.requests, hstarted.puts, hstarted.shaped⟩

theorem Consistent.authAnswered (hself : self.Consistent)
    (hopen : self.realtime = some .connected)
    (restoreStateAfterComplete : Bool) (response : Response) :
    (self.authAnswered restoreStateAfterComplete response).Consistent := by
  have hconnected : (self.inState .connected).Consistent :=
    hself.inState hopen rfl
  unfold FPersistentConnection.authAnswered
  split
  next =>
    split
    next => exact hconnected.restored hopen
    next => exact hconnected
  next =>
    have hnone := hconnected.attempts.not_scheduled
      (by simp [FPersistentConnection.inState])
    exact hconnected.disconnected
      (self.inState .connected).tokenRejected
      (fun _ => hnone) rfl rfl rfl rfl rfl

theorem Consistent.tokenSent (hself : self.Consistent)
    (hopen : self.realtime = some .connected) (token : Option String) :
    (self.tokenSent token).Consistent := by
  unfold FPersistentConnection.tokenSent
  have hwith : ∀ token, (self.withToken token).Consistent := fun token =>
    ⟨hself.attempts, hself.requests, hself.puts, hself.shaped⟩
  cases token with
  | none => exact (hwith none).record hopen _ (by simp)
  | some credential =>
      exact (hwith (some credential)).authSent hopen credential false

theorem Consistent.putStarted (hself : self.Consistent)
    (hopen : self.realtime = some .connected) (request : PutRequest δ)
    (onComplete : κ) : (self.putStarted request onComplete).Consistent where
  attempts := hself.attempts
  requests :=
    (hself.record hopen
      [putRequest (self.putCounter, ⟨request, onComplete, false⟩)]
      (by simp [putRequest, isListen])).requests
  shaped := hself.shaped
  puts := by
    have hconcat := hself.puts.concat
    simpa [FPersistentConnection.putStarted, FPersistentConnection.putAdded,
      FPersistentConnection.record] using hconcat

theorem Consistent.putAdded (hself : self.Consistent)
    (request : PutRequest δ) (onComplete : κ) :
    (self.putAdded request onComplete).Consistent where
  attempts := hself.attempts
  requests := hself.requests
  shaped := hself.shaped
  puts := by
    have hconcat := hself.puts.concat
    simpa [FPersistentConnection.putAdded] using hconcat

theorem Consistent.answered (hself : self.Consistent) {number : ℕ}
    {block : ResponseBlock κ π}
    (hlookup : self.requestCBHash.lookup number = some block)
    (hnot : isListen block = false) : (self.answered number).Consistent := by
  have herase := hself.requests.erase hlookup rfl
  rw [hnot] at herase
  simp only [Bool.false_eq_true, if_false, sub_zero] at herase
  exact ⟨hself.attempts, herase, hself.puts, hself.shaped⟩

section Listens

variable [DecidableEq π]

theorem listen_allowed {query : FQuerySpec π} {tagId : Option ℕ}
    {onComplete : κ} :
    self.brokenContract (.listen query tagId onComplete) = none ↔
      (self.listens.lookup query).isSome = false ∧
        query.hasShape = true := by
  simp only [brokenContract]
  split
  next hfound => simp [hfound]
  next hnew =>
    split
    next hshape =>
      rw [Bool.not_eq_true] at hnew
      simp [hnew, hshape]
    next hshape => simp [hshape]

theorem unlisten_allowed {query : FQuerySpec π} {tagId : Option ℕ} :
    self.brokenContract (.unlisten query tagId) = none ↔
      query.hasShape = true := by
  simp [brokenContract]

omit [DecidableEq π] in
theorem Consistent.shaped_sublist (hself : self.Consistent)
    {listens : List (FQuerySpec π × FOutstandingQuery κ π)}
    (hsublist : listens.Sublist self.listens) :
    ∀ entry ∈ listens, entry.1.hasShape = true :=
  fun entry hentry => hself.shaped entry (hsublist.subset hentry)

theorem Consistent.listenAdded (hself : self.Consistent)
    {query : FQuerySpec π} {tagId : Option ℕ} {onComplete : κ}
    (hkeeps : self.brokenContract (.listen query tagId onComplete) = none) :
    (self.listenAdded query tagId onComplete).Consistent where
  attempts := hself.attempts
  requests := hself.requests
  puts := hself.puts
  shaped := by
    intro entry hentry
    rcases List.mem_append.mp hentry with hold | hnew
    · exact hself.shaped entry hold
    · obtain rfl := List.mem_singleton.mp hnew
      exact (listen_allowed.mp hkeeps).2

theorem Consistent.listenRemoved (hself : self.Consistent)
    (query : FQuerySpec π) : (self.listenRemoved query).Consistent where
  attempts := hself.attempts
  requests := hself.requests
  puts := hself.puts
  shaped := hself.shaped_sublist List.filter_sublist

/-- A listen whose answer is told has passed the assertion. -/
theorem Consistent.hasShape_of_isCurrent (hself : self.Consistent)
    {listenSpec : FOutstandingQuery κ π}
    (hcurrent : self.isCurrent listenSpec = true) :
    listenSpec.query.hasShape = true := by
  unfold isCurrent at hcurrent
  rw [decide_eq_true_eq, Option.map_eq_some_iff] at hcurrent
  obtain ⟨found, hfound, -⟩ := hcurrent
  exact hself.shaped _ (KeyedList.mem_of_lookup hfound)

theorem Consistent.responded (hself : self.Consistent) {number : ℕ}
    {block : ResponseBlock κ π}
    (hlookup : self.requestCBHash.lookup number = some block)
    (response : Response) :
    ((self.answered number).responded block response).Consistent := by
  have hopen := hself.requests.open_of_lookup hlookup
  have hanswered := hself.answered hlookup
  cases block with
  | stats => exact hanswered rfl
  | auth restore => exact (hanswered rfl).authAnswered hopen restore response
  | put index onComplete =>
      have hputs := (hanswered rfl).puts
      have hsublist : ((KeyedList.erase index
          self.outstandingPuts).map Prod.fst).Sublist
            (self.outstandingPuts.map Prod.fst) :=
        List.filter_sublist.map Prod.fst
      have hless := hputs.sublist hsublist
      simp only [FPersistentConnection.responded, onPutResponse]
      split
      next =>
        split
        next =>
          exact ⟨hself.attempts, (hanswered rfl).requests, hless,
            hself.shaped⟩
        next =>
          exact ⟨hself.attempts, (hanswered rfl).requests, hless,
            hself.shaped⟩
      next => exact hanswered rfl
  | listen listenSpec =>
      have herase := hself.requests.erase hlookup rfl
      simp only [isListen, if_true] at herase
      have hless : ((self.answered number).listenReported listenSpec
          response).listens.Sublist self.listens := by
        simp only [listenReported]
        split
        next => exact List.filter_sublist
        next => exact List.Sublist.refl _
      have hreported : (((self.answered number).listenReported listenSpec
          response).setCount (self.unackedListensCount - 1)).Consistent :=
        ⟨hself.attempts, herase, hself.puts, hself.shaped_sublist hless⟩
      simp only [FPersistentConnection.responded, listenAnswered]
      split
      next =>
        exact ⟨hreported.attempts, hreported.requests, hreported.puts,
          hreported.shaped⟩
      next => exact hreported
  | onDisconnect callback =>
      exact ⟨hself.attempts, (hanswered rfl).requests, hself.puts, hself.shaped⟩

theorem Consistent.after (hself : self.Consistent) {event : Event δ κ π}
    (hpossible : self.Possible event) : (self.after event).Consistent := by
  have hopen : self.isConnected → self.realtime = some .connected := by
    intro hconnected
    apply hself.attempts.open_of_connected
    simpa [isConnected] using hconnected
  have hwrites : self.canSendWrites → self.realtime = some .connected := by
    intro hconnected
    apply hself.attempts.open_of_connected
    exact Or.inr (by simpa [canSendWrites] using hconnected)
  cases event with
  | listen query tagId onComplete =>
      have hadded := hself.listenAdded hpossible.2
      simp only [FPersistentConnection.after]
      split
      next hconnected => exact hadded.listensSent (hopen hconnected) _
      next => exact hadded
  | unlisten query tagId =>
      have hremoved := hself.listenRemoved query
      simp only [FPersistentConnection.after]
      split
      next hconnected =>
        rw [Bool.and_eq_true] at hconnected
        exact hremoved.record (hopen hconnected.2) _ (by simp)
      next => exact hremoved
  | put request onComplete =>
      simp only [FPersistentConnection.after]
      split
      next hconnected =>
        exact hself.putStarted (hwrites hconnected) request onComplete
      next => exact hself.putAdded request onComplete
  | onDisconnectAction tuple =>
      simp only [FPersistentConnection.after]
      split
      next hconnected =>
        exact hself.record (hwrites hconnected) _
          (by simp [onDisconnectRequest, isListen])
      next => exact ⟨hself.attempts, hself.requests, hself.puts, hself.shaped⟩
  | refreshAuthToken token =>
      simp only [FPersistentConnection.after]
      split
      next hconnected => exact hself.tokenSent (hopen hconnected) token
      next => exact ⟨hself.attempts, hself.requests, hself.puts, hself.shaped⟩
  | purgeOutstandingWrites =>
      have hnone : Puts [] self.putCounter :=
        hself.puts.sublist (List.nil_sublist _)
      exact ⟨hself.attempts, hself.requests, hnone, hself.shaped⟩
  | interrupt reason => exact hself.afterInterrupt reason
  | resume reason =>
      simp only [FPersistentConnection.after]
      split
      next hboth =>
        rw [Bool.and_eq_true, decide_eq_true_eq] at hboth
        exact hself.rescheduled (self.resumed reason) hboth.2
          rfl (Finset.erase_subset _ _)
      next hnot =>
        rw [Bool.and_eq_true, decide_eq_true_eq] at hnot
        refine ⟨hself.attempts.resume (Finset.erase_subset _ _) ?_,
          hself.requests, hself.puts, hself.shaped⟩
        rintro hstate hreasons
        exact hnot ⟨by simpa [shouldReconnect] using hreasons, hstate⟩
  | reconnectNow =>
      simp only [FPersistentConnection.after]
      split
      next hstate =>
        exact hself.rescheduled self hstate rfl (Finset.Subset.refl _)
      next => exact hself
  | retry =>
      have hstate := (hself.attempts.scheduled_iff.mp hpossible.1).1
      obtain ⟨hclosed, -, -⟩ := hself.down (by rw [hstate]; rfl)
      have hretry := hself.attempts.retry hpossible.1
      rw [← hclosed] at hretry
      exact ⟨hretry, hself.requests, hself.puts, hself.shaped⟩
  | fetchToken attempt token => exact hself.afterFetch hpossible.1 token
  | handshake =>
      simp only [FPersistentConnection.after]
      split
      next hopening => exact hself.ready hopening
      next => exact hself
  | response number response =>
      simp only [FPersistentConnection.after, afterResponse]
      split
      next => exact hself
      next block hlookup => exact hself.responded hlookup response
  | authRevoked =>
      simp only [FPersistentConnection.after]
      split
      next hrealtime =>
        have hstate := hself.attempts.state_of_realtime hrealtime
        exact hself.disconnected self.tokenRejected
          (fun _ => hself.attempts.not_scheduled hstate) rfl rfl rfl rfl rfl
      next => exact ⟨hself.attempts, hself.requests, hself.puts, hself.shaped⟩
  | listenRevoked path =>
      exact ⟨hself.attempts, hself.requests, hself.puts,
        hself.shaped_sublist List.filter_sublist⟩
  | shutdown => exact hself.afterInterrupt .serverKill
  | connectionLost =>
      have hstate := hself.attempts.state_of_realtime hpossible.1
      exact hself.disconnected self
        (fun _ => hself.attempts.not_scheduled hstate) rfl rfl rfl rfl rfl

theorem Consistent.onResponse_eq (hself : self.Consistent) {number : ℕ}
    {block : ResponseBlock κ π}
    (hlookup : self.requestCBHash.lookup number = some block)
    (response : Response) :
    (self.answered number).onResponse block response =
      .ok ((self.answered number).responded block response) := by
  cases block with
  | stats => rfl
  | auth restore =>
      exact onAuthResponse_eq (self.answered number)
        (hself.requests.open_of_lookup hlookup) hself.puts.ascending restore
        response
  | put index onComplete => rfl
  | listen listenSpec =>
      exact onListenResponse_eq (self.answered number)
        (hself.requests.one_le hlookup rfl) hself.hasShape_of_isCurrent
        response
  | onDisconnect callback => rfl

/-- Nothing fails in a consistent connection. -/
theorem Consistent.handle_eq (hself : self.Consistent)
    {event : Event δ κ π} (hpossible : self.Possible event) :
    self.handle event = .ok (self.after event) := by
  have hopen : self.isConnected → self.realtime = some .connected := by
    intro hconnected
    apply hself.attempts.open_of_connected
    simpa [isConnected] using hconnected
  have hwrites : self.canSendWrites → self.realtime = some .connected := by
    intro hconnected
    apply hself.attempts.open_of_connected
    exact Or.inr (by simpa [canSendWrites] using hconnected)
  cases event with
  | listen query tagId onComplete =>
      have hallowed := listen_allowed.mp hpossible.2
      exact listen_eq hopen hallowed.1 hallowed.2 tagId onComplete
  | unlisten query tagId =>
      exact unlisten_eq hopen (unlisten_allowed.mp hpossible.2) tagId
  | put request onComplete =>
      exact putInternal_eq hwrites hself.puts.notMem request onComplete
  | onDisconnectAction tuple => exact onDisconnectAction_eq hwrites tuple
  | refreshAuthToken token => exact refreshAuthToken_eq hopen token
  | purgeOutstandingWrites => rfl
  | interrupt reason => exact interruptForReason_eq self reason
  | resume reason =>
      simp only [handle, resumeForReason, FPersistentConnection.after]
      split
      next hboth =>
        rw [Bool.and_eq_true, decide_eq_true_eq] at hboth
        exact tryScheduleReconnect_eq hboth.2
      next => rfl
  | reconnectNow =>
      simp only [handle, FPersistentConnection.reconnectNow,
        FPersistentConnection.after]
      split
      next hstate => exact tryScheduleReconnect_eq hstate
      next => rfl
  | retry =>
      have hstate := (hself.attempts.scheduled_iff.mp hpossible.1).1
      simp only [handle, FPersistentConnection.retry]
      rw [if_pos hstate]
      rfl
  | fetchToken attempt token =>
      apply onFetchToken_eq
      rintro rfl
      exact hself.attempts.fetched hpossible.1
  | handshake =>
      simp only [handle, FPersistentConnection.after]
      split
      next hopening =>
        exact onHandshake_eq hopening (hself.state_of_opening hopening)
          hself.puts.ascending
      next hnot =>
        unfold onHandshake
        split
        next hopening => exact absurd hopening hnot
        next => rfl
  | response number response =>
      simp only [handle, onDataMessage, FPersistentConnection.after,
        afterResponse]
      cases hlookup : self.requestCBHash.lookup number with
      | none => rfl
      | some block => exact hself.onResponse_eq hlookup response
  | authRevoked =>
      simp only [handle, onAuthRevoked, FPersistentConnection.after]
      split
      next hrealtime => exact closeRealtime_eq self.tokenRejected hrealtime
      next hclosed =>
        have hclosed : self.realtime = none := by simpa using hclosed
        have hstill : self.tokenRejected.realtime = none := hclosed
        unfold closeRealtime
        rw [hstill]
  | listenRevoked path => rfl
  | shutdown => exact interruptForReason_eq self .serverKill
  | connectionLost => exact closeRealtime_eq self hpossible.1

theorem Consistent.step_iff (hself : self.Consistent)
    {event : Event δ κ π}
    {outcome : Except ConnectionFailure (FPersistentConnection δ κ π)} :
    (machine δ κ π).step (Except.ok self) event = some outcome ↔
      self.Possible event ∧ outcome = Except.ok (self.after event) := by
  simp only [machine, Option.ite_none_right_eq_some, Option.some.injEq]
  refine and_congr_right fun hpossible => ?_
  rw [hself.handle_eq hpossible]
  exact eq_comm

theorem Consistent.run (hself : self.Consistent) {events : List (Event δ κ π)}
    {outcome : Except ConnectionFailure (FPersistentConnection δ κ π)}
    (hrun : (machine δ κ π).run (Except.ok self) events = some outcome) :
    ∃ next, outcome = Except.ok next ∧ next.Consistent := by
  apply EventMachine.invariant_run _ ⟨self, rfl, hself⟩ hrun
  rintro _ event next ⟨self, rfl, hself⟩ hstep
  obtain ⟨hpossible, rfl⟩ := hself.step_iff.mp hstep
  exact ⟨self.after event, rfl, hself.after hpossible⟩

/-- The events are possible one after the other. -/
def AllPossible (self : FPersistentConnection δ κ π) :
    List (Event δ κ π) → Prop
  | [] => True
  | event :: events =>
      self.Possible event ∧ (self.after event).AllPossible events

instance decidableAllPossible (self : FPersistentConnection δ κ π)
    (events : List (Event δ κ π)) : Decidable (self.AllPossible events) :=
  match events with
  | [] => inferInstanceAs (Decidable True)
  | event :: events =>
      have := decidableAllPossible (self.after event) events
      inferInstanceAs (Decidable (_ ∧ _))

/-- A run takes the connection through the states `after` each event. -/
theorem Consistent.run_eq (hself : self.Consistent)
    {events : List (Event δ κ π)} (hpossible : self.AllPossible events) :
    (machine δ κ π).run (Except.ok self) events =
      some (Except.ok (events.foldl FPersistentConnection.after self)) := by
  induction events generalizing self with
  | nil => rfl
  | cons event events ih =>
      have hstep := hself.step_iff.mpr ⟨hpossible.1, rfl⟩
      rw [EventMachine.run_cons, hstep]
      exact ih (hself.after hpossible.1) hpossible.2

omit [DecidableEq π] in
theorem Consistent.not_idle (hself : self.Consistent)
    (hreasons : self.interruptReasons = ∅) :
    self.scheduledRetry.isSome ∨
      self.currentFetchTokenAttempt ∈ self.fetches ∨
      self.realtime.isSome := by
  have heq := hself.attempts.realtime_eq
  cases hstate : self.connectionState with
  | disconnected =>
      exact Or.inl (hself.attempts.scheduled_iff.mpr ⟨hstate, hreasons⟩)
  | gettingToken => exact Or.inr (Or.inl (hself.attempts.fetching hstate))
  | connecting => simp [heq, hstate, realtimeOf]
  | authenticating => simp [heq, hstate, realtimeOf]
  | connected => simp [heq, hstate, realtimeOf]

/-! ## Calls of all kinds -/

theorem handle_of_broken {event : Event δ κ π} {text : String}
    (hbroken : self.brokenContract event = some text) :
    self.handle event = .error (.assertion text) := by
  cases event with
  | listen query tagId onComplete =>
      simp only [brokenContract] at hbroken
      simp only [handle, FPersistentConnection.listen]
      split at hbroken
      next hfound =>
        cases hbroken
        rw [if_pos hfound]
      next hnew =>
        split at hbroken
        next => contradiction
        next hshape =>
          cases hbroken
          rw [if_neg hnew, if_pos (by simpa using hshape)]
  | unlisten query tagId =>
      simp only [brokenContract] at hbroken
      simp only [handle, FPersistentConnection.unlisten,
        FPersistentConnection.removeListen]
      split at hbroken
      next => contradiction
      next hshape =>
        cases hbroken
        rw [if_neg hshape]
  | _ => contradiction

/-- An assertion fails exactly when its part of the contract is broken. -/
theorem Consistent.handle_error_iff (hself : self.Consistent)
    {event : Event δ κ π} (hoccurs : self.CanOccur event)
    {failure : ConnectionFailure} :
    self.handle event = .error failure ↔
      ∃ text, self.brokenContract event = some text ∧
        failure = .assertion text := by
  constructor
  · intro hfails
    cases hbroken : self.brokenContract event with
    | none =>
        rw [hself.handle_eq ⟨hoccurs, hbroken⟩] at hfails
        contradiction
    | some text =>
        rw [handle_of_broken hbroken] at hfails
        exact ⟨text, rfl, (Except.error.inj hfails).symm⟩
  · rintro ⟨text, hbroken, rfl⟩
    exact handle_of_broken hbroken

/-- What holds in every state that is reached: the unanswered listens are
counted, nothing waits on a connection which is not open, the connection never
rests unless a reason forbids the next attempt, and an event fails exactly
when it is a call which breaks the contract. -/
structure Sound (connection : FPersistentConnection δ κ π) : Prop where
  counted : connection.unackedListensCount =
    (connection.requestCBHash.countP fun entry => isListen entry.2 : ℕ)
  closed : connection.realtime ≠ some .connected →
    connection.requestCBHash = []
  notIdle : connection.interruptReasons = ∅ →
    connection.scheduledRetry.isSome ∨
      connection.currentFetchTokenAttempt ∈ connection.fetches ∨
      connection.realtime.isSome
  fails_iff : ∀ event, connection.CanOccur event → ∀ failure,
    connection.handle event = .error failure ↔
      ∃ text, connection.brokenContract event = some text ∧
        failure = .assertion text

theorem Consistent.sound (hself : self.Consistent) : self.Sound where
  counted := hself.requests.count_eq
  closed := hself.requests.closed
  notIdle := hself.not_idle
  fails_iff _ hoccurs _ := hself.handle_error_iff hoccurs

end Listens

end FPersistentConnection

end FirebaseDatabase
