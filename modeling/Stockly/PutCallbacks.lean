import Stockly.ConnectionInvariant
import Mathlib.Data.Multiset.AddSub

/-!
# The completion of a put

The block of a put is with the put until it is answered, cancelled or purged,
then perhaps with the acknowledgements which wait for the listens, and it is
called when it leaves them.  No order of events, and no answer of the server,
makes a block be called twice or be forgotten.
-/

universe u v w

namespace FirebaseDatabase

namespace FPersistentConnection

variable {δ : Type u} {κ : Type v} {π : Type w}

def calledPut : BlockCall κ → Option κ
  | .put block _ _ => some block
  | _ => none

/-- How often the block of each put has been called. -/
def called (self : FPersistentConnection δ κ π) : Multiset κ :=
  ↑(self.calls.filterMap calledPut)

def waitingToAck (self : FPersistentConnection δ κ π) : Multiset κ :=
  ↑(self.putsToAck.map FTupleCallbackStatus.block)

/-- The blocks of the outstanding puts with their indices. -/
def putBlocks (self : FPersistentConnection δ κ π) : List (ℕ × κ) :=
  self.outstandingPuts.map fun entry => (entry.1, entry.2.onCompleteBlock)

def outstanding (self : FPersistentConnection δ κ π) : Multiset κ :=
  ↑(self.outstandingPuts.map fun entry => entry.2.onCompleteBlock)

def accounted (self : FPersistentConnection δ κ π) : Multiset κ :=
  self.called + self.waitingToAck + self.outstanding

/-- The blocks which the puts among the events are given. -/
def issuedBlock : Event δ κ π → Option κ
  | .put _ onComplete => some onComplete
  | _ => none

def issued (events : List (Event δ κ π)) : Multiset κ :=
  ↑(events.filterMap issuedBlock)

/-- What waits for the answer to a put is the block of the put, as long as
the put is outstanding. -/
structure Matched (hash : List (ℕ × ResponseBlock κ π))
    (blocks : List (ℕ × κ)) (putCounter : ℕ) : Prop where
  below : ∀ number index onComplete,
    (number, ResponseBlock.put index onComplete) ∈ hash → index < putCounter
  block_eq : ∀ number index onComplete block,
    (number, ResponseBlock.put index onComplete) ∈ hash →
      (index, block) ∈ blocks → block = onComplete

def MatchedBlocks (self : FPersistentConnection δ κ π) : Prop :=
  Matched self.requestCBHash self.putBlocks self.putCounter

/-! ## The blocks which wait for answers -/

theorem Matched.subset {hash later : List (ℕ × ResponseBlock κ π)}
    {blocks fewer : List (ℕ × κ)} {putCounter : ℕ}
    (hmatched : Matched hash blocks putCounter) (hhash : later ⊆ hash)
    (hblocks : fewer ⊆ blocks) : Matched later fewer putCounter where
  below := fun number index onComplete hmem =>
    hmatched.below number index onComplete (hhash hmem)
  block_eq := fun number index onComplete block hmem hblock =>
    hmatched.block_eq number index onComplete block (hhash hmem)
      (hblocks hblock)

theorem mem_waiting {first : ℕ} {requests : List (Request δ κ π)}
    {entry : ℕ × ResponseBlock κ π} (hentry : entry ∈ waiting first requests) :
    ∃ request ∈ requests, request.2 = some entry.2 := by
  induction requests generalizing first with
  | nil => simp at hentry
  | cons request requests ih =>
      rw [waiting_cons] at hentry
      rcases List.mem_append.mp hentry with hhere | hrest
      · refine ⟨request, List.mem_cons_self, ?_⟩
        cases hblock : request.2 with
        | none => simp [hblock] at hhere
        | some block =>
            have heq : entry = (first, block) := by simpa [hblock] using hhere
            rw [heq]
      · obtain ⟨other, hother, hblock⟩ := ih hrest
        exact ⟨other, List.mem_cons_of_mem _ hother, hblock⟩

/-- Requests join, and those among them which are puts belong to outstanding
ones. -/
theorem Matched.record {hash : List (ℕ × ResponseBlock κ π)}
    {blocks : List (ℕ × κ)} {putCounter : ℕ}
    (hmatched : Matched hash blocks putCounter)
    (hdistinct : KeyedList.Distinct blocks)
    (hbelow : ∀ block ∈ blocks, block.1 < putCounter) (first : ℕ)
    (requests : List (Request δ κ π))
    (hputs : ∀ request ∈ requests, ∀ index onComplete,
      request.2 = some (.put index onComplete) →
        (index, onComplete) ∈ blocks) :
    Matched (hash ++ waiting first requests) blocks putCounter where
  below := fun number index onComplete hmem => by
    rcases List.mem_append.mp hmem with hold | hnew
    · exact hmatched.below number index onComplete hold
    · obtain ⟨request, hrequest, hblock⟩ := mem_waiting hnew
      exact hbelow _ (hputs request hrequest index onComplete hblock)
  block_eq := fun number index onComplete block hmem hblock => by
    rcases List.mem_append.mp hmem with hold | hnew
    · exact hmatched.block_eq number index onComplete block hold hblock
    · obtain ⟨request, hrequest, hwaiting⟩ := mem_waiting hnew
      have hown := hputs request hrequest index onComplete hwaiting
      have hfirst := KeyedList.lookup_of_mem hdistinct hblock
      rw [KeyedList.lookup_of_mem hdistinct hown] at hfirst
      exact (Option.some.inj hfirst).symm

theorem Matched.concat {hash : List (ℕ × ResponseBlock κ π)}
    {blocks : List (ℕ × κ)} {putCounter : ℕ}
    (hmatched : Matched hash blocks putCounter) (onComplete : κ) :
    Matched hash (blocks ++ [(putCounter, onComplete)]) (putCounter + 1) where
  below := fun number index other hmem =>
    (hmatched.below number index other hmem).trans (Nat.lt_succ_self _)
  block_eq := fun number index other block hmem hblock => by
    rcases List.mem_append.mp hblock with hold | hnew
    · exact hmatched.block_eq number index other block hmem hold
    · have hsame : index = putCounter := by
        have hpair := List.mem_singleton.mp hnew
        exact congrArg Prod.fst hpair
      have hlt := hmatched.below number index other hmem
      omega

theorem issued_concat (events : List (Event δ κ π)) (event : Event δ κ π) :
    issued (events ++ [event]) = issued events + issued [event] := by
  unfold issued
  rw [List.filterMap_append, Multiset.coe_add]

/-! ## What the functions do to the account -/

variable {self : FPersistentConnection δ κ π}

theorem called_append (self : FPersistentConnection δ κ π)
    {next : FPersistentConnection δ κ π} {more : List (BlockCall κ)}
    (hcalls : next.calls = self.calls ++ more) :
    next.called = self.called + ↑(more.filterMap calledPut) := by
  unfold called
  rw [hcalls, List.filterMap_append, Multiset.coe_add]

/-- Calls of the blocks of puts, made from anything. -/
theorem filterMap_calledPut {α : Type*} (entries : List α) (block : α → κ)
    (status errorReason : α → Option String) :
    (entries.map fun entry => BlockCall.put (block entry) (status entry)
      (errorReason entry)).filterMap calledPut = entries.map block := by
  rw [List.filterMap_map]
  exact congrFun List.filterMap_eq_map entries

/-- The blocks are where they were, in the same number, and what waits still
belongs to them. -/
structure Keeps (account : Multiset κ)
    (next : FPersistentConnection δ κ π) : Prop where
  accounted_eq : next.accounted = account
  matched : next.MatchedBlocks

theorem Keeps.matched_nil {next : FPersistentConnection δ κ π}
    (hhash : next.requestCBHash = []) : next.MatchedBlocks := by
  unfold MatchedBlocks
  rw [hhash]
  constructor <;> simp

theorem Consistent.distinct_putBlocks (hself : self.Consistent) :
    KeyedList.Distinct self.putBlocks := by
  unfold KeyedList.Distinct putBlocks
  rw [List.map_map]
  exact hself.puts.ascending.imp fun hlt => hlt.ne

theorem Consistent.putBlocks_below (hself : self.Consistent) :
    ∀ block ∈ self.putBlocks, block.1 < self.putCounter := by
  intro block hblock
  obtain ⟨entry, hentry, rfl⟩ := List.mem_map.mp hblock
  exact hself.puts.below _ (List.mem_map_of_mem hentry)

theorem MatchedBlocks.record (hmatched : self.MatchedBlocks)
    (hself : self.Consistent) (requests : List (Request δ κ π))
    (hputs : ∀ request ∈ requests, ∀ index onComplete,
      request.2 = some (.put index onComplete) →
        (index, onComplete) ∈ self.putBlocks) :
    (self.record requests).MatchedBlocks :=
  Matched.record hmatched hself.distinct_putBlocks hself.putBlocks_below _
    requests hputs

theorem MatchedBlocks.putsSent (hmatched : self.MatchedBlocks)
    (hself : self.Consistent) : self.putsSent.MatchedBlocks := by
  have hrecord := hmatched.record hself
    (self.outstandingPuts.map putRequest) fun request hrequest index
      onComplete hblock => by
        obtain ⟨entry, hentry, rfl⟩ := List.mem_map.mp hrequest
        simp only [putRequest, Option.some.injEq,
          ResponseBlock.put.injEq] at hblock
        obtain ⟨rfl, rfl⟩ := hblock
        exact List.mem_map_of_mem hentry
  have hblocks : self.putsSent.putBlocks = self.putBlocks := by
    unfold putBlocks FPersistentConnection.putsSent
    rw [List.map_map]
    rfl
  unfold MatchedBlocks
  rw [hblocks]
  exact hrecord

theorem accounted_putsSent (self : FPersistentConnection δ κ π) :
    self.putsSent.accounted = self.accounted := by
  have houtstanding : self.putsSent.outstanding = self.outstanding := by
    unfold outstanding FPersistentConnection.putsSent
    rw [List.map_map]
    rfl
  unfold accounted
  rw [houtstanding]
  rfl

theorem Keeps.restored (hmatched : self.MatchedBlocks)
    (hself : self.Consistent) (hopen : self.realtime = some .connected) :
    Keeps self.accounted self.restored := by
  have hlistens : (self.listensSent
      (self.listens.map Prod.snd)).MatchedBlocks := by
    apply hmatched.record hself
    intro request hrequest index onComplete hblock
    obtain ⟨spec, -, rfl⟩ := List.mem_map.mp hrequest
    simp [listenRequest] at hblock
  have hputs := hlistens.putsSent (hself.listensSent hopen _)
  constructor
  · exact accounted_putsSent (self.listensSent (self.listens.map Prod.snd))
  · apply hputs.record ((hself.listensSent hopen _).putsSent hopen)
    intro request hrequest index onComplete hblock
    obtain ⟨tuple, -, rfl⟩ := List.mem_map.mp hrequest
    simp [onDisconnectRequest] at hblock

theorem accounted_scheduled (self : FPersistentConnection δ κ π) :
    self.scheduled.accounted = self.accounted := by
  unfold scheduled
  split <;> rfl

/-- A transaction which is cancelled has its block called. -/
theorem Keeps.disconnected (self : FPersistentConnection δ κ π) :
    Keeps self.accounted self.disconnected := by
  constructor
  · have hcalled : self.dropRealtime.called = self.called +
        ↑((self.outstandingPuts.filter isSentTransaction).map
          fun entry => entry.2.onCompleteBlock) := by
      have hcalls : self.dropRealtime.calls = self.calls ++
          (self.outstandingPuts.filter isSentTransaction).map fun entry =>
            .put entry.2.onCompleteBlock (some transactionDisconnect)
              (some "Client was disconnected while running a transaction") :=
        rfl
      rw [called_append self hcalls, filterMap_calledPut]
    have hperm := (List.filter_append_perm isSentTransaction
      self.outstandingPuts).map fun entry => entry.2.onCompleteBlock
    rw [List.map_append] at hperm
    have hsum := Multiset.coe_eq_coe.mpr hperm
    rw [← Multiset.coe_add] at hsum
    unfold FPersistentConnection.disconnected
    rw [accounted_scheduled]
    unfold accounted
    rw [hcalled]
    change self.called + _ + self.waitingToAck +
      ↑((self.outstandingPuts.filter fun entry =>
        !isSentTransaction entry).map fun entry =>
          entry.2.onCompleteBlock) = self.called + self.waitingToAck +
            self.outstanding
    unfold outstanding
    rw [← hsum]
    abel
  · apply Keeps.matched_nil
    unfold FPersistentConnection.disconnected scheduled
    split <;> rfl

theorem Keeps.of_same {next : FPersistentConnection δ κ π}
    (hmatched : next.MatchedBlocks) (hcalls : next.calls = self.calls)
    (hacks : next.putsToAck = self.putsToAck)
    (hputs : next.outstandingPuts = self.outstandingPuts) :
    Keeps self.accounted next := by
  refine ⟨?_, hmatched⟩
  unfold accounted called waitingToAck outstanding
  rw [hcalls, hacks, hputs]

theorem accounted_ackPuts (self : FPersistentConnection δ κ π) :
    self.ackPuts.accounted = self.accounted := by
  have hcalls : self.ackPuts.calls = self.calls ++ self.putsToAck.map
      fun put => .put put.block put.status put.errorReason := rfl
  unfold accounted
  rw [called_append self hcalls, filterMap_calledPut]
  change self.called + self.waitingToAck + 0 + self.outstanding = _
  rw [add_zero]

/-- An answered put leaves the outstanding ones, and its block is called or
waits to be. -/
theorem Keeps.onPutResponse (hmatched : self.MatchedBlocks)
    (hself : self.Consistent) {number index : ℕ} {onComplete : κ}
    (hlookup : self.requestCBHash.lookup number =
      some (.put index onComplete)) (response : Response) :
    Keeps self.accounted
      ((self.answered number).onPutResponse index onComplete response) := by
  have hless : ∀ blocks : List (ℕ × κ), blocks ⊆ self.putBlocks →
      Matched (KeyedList.erase number self.requestCBHash) blocks
        self.putCounter := fun blocks hblocks =>
    hmatched.subset List.filter_sublist.subset hblocks
  unfold FPersistentConnection.onPutResponse
  by_cases hfound : (self.outstandingPuts.lookup index).isSome
  · obtain ⟨put, hput⟩ := Option.isSome_iff_exists.mp hfound
    obtain ⟨before, after, hsplit, herase, -, -⟩ :=
      hself.distinct_puts.split hput
    have hblock : put.onCompleteBlock = onComplete := by
      apply hmatched.block_eq number index onComplete _
        (KeyedList.mem_of_lookup hlookup)
      exact List.mem_map.mpr
        ⟨(index, put), KeyedList.mem_of_lookup hput, rfl⟩
    have hsum : self.outstanding = {onComplete} +
        ↑((KeyedList.erase index self.outstandingPuts).map
          fun entry => entry.2.onCompleteBlock) := by
      unfold outstanding
      rw [herase, hsplit, ← hblock, List.map_append, List.map_append,
        List.map_cons, ← Multiset.coe_add, ← Multiset.coe_add,
        ← Multiset.cons_coe, ← Multiset.singleton_add]
      abel
    have hsubset : (KeyedList.erase index self.outstandingPuts).map
        (fun entry => (entry.1, entry.2.onCompleteBlock)) ⊆
          self.putBlocks :=
      (List.filter_sublist.map _).subset
    have hstill : ((self.answered number).outstandingPuts.lookup
        index).isSome = true := hfound
    rw [if_pos hstill]
    split
    next =>
      refine ⟨?_, hless _ hsubset⟩
      change (↑((self.calls ++ [BlockCall.put onComplete response.status
        response.data]).filterMap calledPut) : Multiset κ) +
          self.waitingToAck + ↑((KeyedList.erase index
            self.outstandingPuts).map fun entry =>
              entry.2.onCompleteBlock) = self.accounted
      unfold accounted
      rw [List.filterMap_append, ← Multiset.coe_add, hsum]
      change self.called + {onComplete} + self.waitingToAck + _ = _
      abel
    next =>
      refine ⟨?_, hless _ hsubset⟩
      change self.called + (↑((self.putsToAck ++
        [FTupleCallbackStatus.mk onComplete response.status
          response.data]).map FTupleCallbackStatus.block) : Multiset κ) +
            ↑((KeyedList.erase index self.outstandingPuts).map fun entry =>
              entry.2.onCompleteBlock) = self.accounted
      unfold accounted
      rw [List.map_append, ← Multiset.coe_add, hsum]
      change self.called + (self.waitingToAck + {onComplete}) + _ = _
      abel
  · have hstill : ¬ ((self.answered number).outstandingPuts.lookup
        index).isSome = true := hfound
    rw [if_neg hstill]
    exact Keeps.of_same (hless _ (List.Subset.refl _)) rfl rfl rfl

theorem Keeps.record (hmatched : self.MatchedBlocks)
    (hself : self.Consistent) (requests : List (Request δ κ π))
    (hputs : ∀ request ∈ requests, ∀ index onComplete,
      request.2 ≠ some (.put index onComplete)) :
    Keeps self.accounted (self.record requests) :=
  ⟨rfl, hmatched.record hself requests
    fun request hrequest index onComplete hblock =>
      absurd hblock (hputs request hrequest index onComplete)⟩

theorem Keeps.ready (hmatched : self.MatchedBlocks) (hself : self.Consistent)
    (hopening : self.realtime = some .connecting) :
    Keeps self.accounted self.ready := by
  have hgreeted : self.greeted.MatchedBlocks := by
    apply Matched.record hmatched hself.distinct_putBlocks
      hself.putBlocks_below
    intro request hrequest index onComplete hblock
    cases hfirst : self.firstConnection with
    | true =>
        have hstats : request = (.stats, some .stats) := by
          simpa [hfirst] using hrequest
        simp [hstats] at hblock
    | false => simp [hfirst] at hrequest
  have hstarted : Keeps self.accounted self.greeted.authStarted := by
    unfold authStarted
    split
    next =>
      have hconnected := hself.greeted hopening
        (by rfl : realtimeOf .connected = _) (by simp) (by simp)
      have hstill : (self.greeted.inState .connected).MatchedBlocks :=
        hgreeted
      exact Keeps.restored hstill hconnected rfl
    next =>
      have hauthenticating := hself.greeted hopening
        (by rfl : realtimeOf .authenticating = _) (by simp) (by simp)
      have hstill : (self.greeted.inState .authenticating).MatchedBlocks :=
        hgreeted
      exact Keeps.record hstill hauthenticating _ (by simp)
  exact ⟨hstarted.accounted_eq, hstarted.matched⟩

theorem Keeps.authAnswered (hmatched : self.MatchedBlocks)
    (hself : self.Consistent) (hopen : self.realtime = some .connected)
    (restoreStateAfterComplete : Bool) (response : Response) :
    Keeps self.accounted
      (self.authAnswered restoreStateAfterComplete response) := by
  have hconnected := hself.inState hopen (by rfl : realtimeOf .connected = _)
  have hstill : (self.inState .connected).MatchedBlocks := hmatched
  unfold FPersistentConnection.authAnswered
  split
  next =>
    split
    next => exact Keeps.restored hstill hconnected hopen
    next => exact ⟨rfl, hstill⟩
  next => exact Keeps.disconnected (self.inState .connected).tokenRejected

theorem filterMap_lookup {γ : Type*}
    {puts : List (ℕ × FOutstandingPut δ κ)}
    (hdistinct : KeyedList.Distinct puts)
    (make : FOutstandingPut δ κ → γ) :
    (puts.map Prod.fst).filterMap
      (fun key => (puts.lookup key).map make) =
        puts.map fun entry => make entry.2 := by
  rw [List.filterMap_map]
  calc
    puts.filterMap ((fun key => (puts.lookup key).map make) ∘ Prod.fst) =
        puts.filterMap (some ∘ fun entry => make entry.2) := by
      apply List.filterMap_congr
      intro entry hentry
      have hlookup : puts.lookup entry.1 = some entry.2 :=
        KeyedList.lookup_of_mem hdistinct hentry
      simp [hlookup]
    _ = puts.map fun entry => make entry.2 :=
      congrFun List.filterMap_eq_map puts

/-- A purge calls the blocks of all puts. -/
theorem Keeps.purgeOutstandingWrites (hmatched : self.MatchedBlocks)
    (hself : self.Consistent) :
    Keeps self.accounted self.purgeOutstandingWrites := by
  have hcalls : self.purgeOutstandingWrites.calls = self.ackPuts.calls ++
      ((self.outstandingPuts.map fun entry =>
          BlockCall.put entry.2.onCompleteBlock (some errorWriteCanceled)
            none) ++
        self.onDisconnectQueue.map fun tuple =>
          .onDisconnect tuple.onComplete (some errorWriteCanceled) none) := by
    rw [← List.append_assoc]
    unfold FPersistentConnection.purgeOutstandingWrites
    simp only [mergeSort_keys hself.puts.ascending,
      filterMap_lookup hself.distinct_puts]
  have hqueue : (self.onDisconnectQueue.map fun tuple =>
      BlockCall.onDisconnect tuple.onComplete (some errorWriteCanceled)
        none).filterMap calledPut = [] := by
    rw [List.filterMap_eq_nil_iff]
    intro call hcall
    obtain ⟨tuple, -, rfl⟩ := List.mem_map.mp hcall
    rfl
  constructor
  · rw [← accounted_ackPuts self]
    unfold accounted
    rw [called_append self.ackPuts hcalls, List.filterMap_append,
      filterMap_calledPut, hqueue, List.append_nil]
    change self.ackPuts.called + self.outstanding + 0 + 0 =
      self.ackPuts.called + 0 + self.outstanding
    abel
  · exact hmatched.subset (List.Subset.refl _) (List.nil_subset _)

/-! ## Every event -/

theorem Keeps.putAdded (hmatched : self.MatchedBlocks)
    (request : PutRequest δ) (onComplete : κ) :
    Keeps (self.accounted + {onComplete})
      (self.putAdded request onComplete) := by
  have hblocks : (self.putAdded request onComplete).putBlocks =
      self.putBlocks ++ [(self.putCounter, onComplete)] := by
    simp [putBlocks, FPersistentConnection.putAdded]
  have houtstanding : (self.putAdded request onComplete).outstanding =
      self.outstanding + {onComplete} := by
    simp [outstanding, FPersistentConnection.putAdded, ← Multiset.coe_add]
  constructor
  · unfold accounted
    rw [houtstanding, ← add_assoc]
    rfl
  · unfold MatchedBlocks
    rw [hblocks]
    exact hmatched.concat onComplete

theorem Keeps.putStarted (hmatched : self.MatchedBlocks)
    (hself : self.Consistent) (request : PutRequest δ) (onComplete : κ) :
    Keeps (self.accounted + {onComplete})
      (self.putStarted request onComplete) := by
  have hadded := Keeps.putAdded hmatched request onComplete
  have hblocks : (self.putStarted request onComplete).putBlocks =
      (self.putAdded request onComplete).putBlocks := by
    simp [putBlocks, FPersistentConnection.putStarted,
      FPersistentConnection.putAdded]
  have houtstanding : (self.putStarted request onComplete).outstanding =
      (self.putAdded request onComplete).outstanding := by
    simp [outstanding, FPersistentConnection.putStarted,
      FPersistentConnection.putAdded]
  constructor
  · rw [← hadded.accounted_eq]
    unfold accounted
    rw [houtstanding]
    rfl
  · have hrecord := hadded.matched.record (hself.putAdded request onComplete)
      [putRequest (self.putCounter, ⟨request, onComplete, false⟩)]
      fun sent hsent index other hblock => by
        rw [List.mem_singleton.mp hsent] at hblock
        simp only [putRequest, Option.some.injEq,
          ResponseBlock.put.injEq] at hblock
        obtain ⟨rfl, rfl⟩ := hblock
        simp [putBlocks, FPersistentConnection.putAdded]
    unfold MatchedBlocks
    rw [hblocks]
    exact hrecord

theorem Keeps.tokenSent (hmatched : self.MatchedBlocks)
    (hself : self.Consistent) (token : Option String) :
    Keeps self.accounted (self.tokenSent token) := by
  cases token with
  | none => exact ⟨rfl, hmatched.record hself _ (by simp)⟩
  | some credential => exact ⟨rfl, hmatched.record hself _ (by simp)⟩

theorem Keeps.scheduled (hmatched : self.MatchedBlocks) :
    Keeps self.accounted self.scheduled := by
  refine ⟨accounted_scheduled self, ?_⟩
  unfold FPersistentConnection.scheduled
  split
  next => exact hmatched
  next => exact hmatched

theorem Keeps.afterInterrupt (hmatched : self.MatchedBlocks)
    (reason : InterruptReason) :
    Keeps self.accounted (self.afterInterrupt reason) := by
  unfold FPersistentConnection.afterInterrupt
  split
  next => exact Keeps.disconnected (self.interrupted reason)
  next => exact ⟨rfl, hmatched⟩

theorem Keeps.afterFetch (hmatched : self.MatchedBlocks) (attempt : ℕ)
    (token : Option (Option String)) :
    Keeps self.accounted (self.afterFetch attempt token) := by
  have hstill : ((self.fetched attempt).inState
      .disconnected).MatchedBlocks := hmatched
  unfold FPersistentConnection.afterFetch
  split
  next =>
    cases token with
    | none => exact Keeps.scheduled hstill
    | some token =>
        dsimp only
        split
        next => exact ⟨rfl, hmatched⟩
        next => exact ⟨rfl, hmatched⟩
  next => exact ⟨rfl, hmatched⟩

/-- Calls which are none of a put leave the account. -/
theorem accounted_of_calls {next : FPersistentConnection δ κ π}
    (more : List (BlockCall κ)) (hcalls : next.calls = self.calls ++ more)
    (hnone : more.filterMap calledPut = [])
    (hacks : next.putsToAck = self.putsToAck)
    (hputs : next.outstandingPuts = self.outstandingPuts) :
    next.accounted = self.accounted := by
  unfold accounted waitingToAck outstanding
  rw [called_append self hcalls, hnone, hacks, hputs, Multiset.coe_nil,
    add_zero]

section Listens

variable [DecidableEq π]

theorem accounted_listenAnswered (self : FPersistentConnection δ κ π)
    (listenSpec : FOutstandingQuery κ π) (response : Response) :
    (self.listenAnswered listenSpec response).accounted =
      self.accounted := by
  have hreported : ((self.listenReported listenSpec response).setCount
      (self.unackedListensCount - 1)).accounted = self.accounted := by
    by_cases hcurrent : self.isCurrent listenSpec = true
    · apply accounted_of_calls
        [.listen listenSpec.onComplete response.status]
      · simp [listenReported, setCount, hcurrent]
      · rfl
      · rfl
      · rfl
    · apply accounted_of_calls []
      · simp [listenReported, setCount, hcurrent]
      · rfl
      · rfl
      · rfl
  unfold listenAnswered
  split
  next => exact (accounted_ackPuts _).trans hreported
  next => exact hreported

theorem Keeps.responded (hmatched : self.MatchedBlocks)
    (hself : self.Consistent) {number : ℕ} {block : ResponseBlock κ π}
    (hlookup : self.requestCBHash.lookup number = some block)
    (response : Response) :
    Keeps self.accounted
      ((self.answered number).responded block response) := by
  have hanswered : (self.answered number).MatchedBlocks :=
    Matched.subset hmatched List.filter_sublist.subset (List.Subset.refl _)
  cases block with
  | stats => exact ⟨rfl, hanswered⟩
  | auth restore =>
      exact Keeps.authAnswered hanswered (hself.answered hlookup rfl)
        (hself.requests.open_of_lookup hlookup) restore response
  | put index onComplete =>
      exact Keeps.onPutResponse hmatched hself hlookup response
  | listen listenSpec =>
      refine ⟨accounted_listenAnswered (self.answered number) listenSpec
        response, ?_⟩
      simp only [FPersistentConnection.responded, listenAnswered]
      split
      next => exact hanswered
      next => exact hanswered
  | onDisconnect callback =>
      refine ⟨?_, hanswered⟩
      exact accounted_of_calls
        [.onDisconnect callback response.status response.data] rfl rfl rfl rfl

/-- The account grows by the blocks that are handed over, and by nothing
else. -/
theorem Keeps.after (hmatched : self.MatchedBlocks) (hself : self.Consistent)
    {event : Event δ κ π} (hpossible : self.Possible event) :
    Keeps (self.accounted + issued [event]) (self.after event) := by
  have hsilent : ∀ {next : FPersistentConnection δ κ π},
      issuedBlock event = none → Keeps self.accounted next →
        Keeps (self.accounted + issued [event]) next := by
    intro next hnone hkeeps
    have hnothing : issued [event] = 0 := by
      simp [issued, hnone]
    rw [hnothing, add_zero]
    exact hkeeps
  cases event with
  | listen query tagId onComplete =>
      apply hsilent rfl
      have hadded := hself.listenAdded hpossible.2
      have hstill : (self.listenAdded query tagId onComplete).MatchedBlocks :=
        hmatched
      simp only [FPersistentConnection.after]
      split
      next =>
        have hrecord := hstill.record hadded
          [listenRequest ⟨self.allocated, query, tagId, onComplete⟩]
          (by simp [listenRequest])
        exact ⟨rfl, hrecord⟩
      next => exact ⟨rfl, hmatched⟩
  | unlisten query tagId =>
      apply hsilent rfl
      have hremoved := hself.listenRemoved query
      have hstill : (self.listenRemoved query).MatchedBlocks := hmatched
      simp only [FPersistentConnection.after]
      split
      next => exact Keeps.record hstill hremoved _ (by simp)
      next => exact ⟨rfl, hmatched⟩
  | put request onComplete =>
      simp only [FPersistentConnection.after]
      split
      next => exact Keeps.putStarted hmatched hself request onComplete
      next => exact Keeps.putAdded hmatched request onComplete
  | onDisconnectAction tuple =>
      apply hsilent rfl
      simp only [FPersistentConnection.after]
      split
      next =>
        exact Keeps.record hmatched hself _ (by simp [onDisconnectRequest])
      next => exact ⟨rfl, hmatched⟩
  | refreshAuthToken token =>
      apply hsilent rfl
      simp only [FPersistentConnection.after]
      split
      next => exact Keeps.tokenSent hmatched hself token
      next => exact ⟨rfl, hmatched⟩
  | purgeOutstandingWrites =>
      exact hsilent rfl (Keeps.purgeOutstandingWrites hmatched hself)
  | interrupt reason => exact hsilent rfl (Keeps.afterInterrupt hmatched reason)
  | resume reason =>
      apply hsilent rfl
      have hstill : (self.resumed reason).MatchedBlocks := hmatched
      simp only [FPersistentConnection.after]
      split
      next => exact Keeps.scheduled hstill
      next => exact ⟨rfl, hmatched⟩
  | reconnectNow =>
      apply hsilent rfl
      simp only [FPersistentConnection.after]
      split
      next => exact Keeps.scheduled hmatched
      next => exact ⟨rfl, hmatched⟩
  | retry => exact hsilent rfl ⟨rfl, hmatched⟩
  | fetchToken attempt token =>
      exact hsilent rfl (Keeps.afterFetch hmatched attempt token)
  | handshake =>
      apply hsilent rfl
      simp only [FPersistentConnection.after]
      split
      next hopening => exact Keeps.ready hmatched hself hopening
      next => exact ⟨rfl, hmatched⟩
  | response number response =>
      apply hsilent rfl
      simp only [FPersistentConnection.after, afterResponse]
      split
      next => exact ⟨rfl, hmatched⟩
      next block hlookup =>
        exact Keeps.responded hmatched hself hlookup response
  | authRevoked =>
      apply hsilent rfl
      simp only [FPersistentConnection.after]
      split
      next => exact Keeps.disconnected self.tokenRejected
      next => exact ⟨rfl, hmatched⟩
  | listenRevoked path =>
      apply hsilent rfl
      refine ⟨?_, hmatched⟩
      have hcalls : (self.onListenRevoked path).calls = self.calls ++
          (self.listens.filter fun entry => entry.1.path = path).map
            fun entry =>
              .listen entry.2.onComplete (some "permission_denied") := rfl
      apply accounted_of_calls _ hcalls _ rfl rfl
      rw [List.filterMap_eq_nil_iff]
      intro call hcall
      obtain ⟨entry, -, rfl⟩ := List.mem_map.mp hcall
      rfl
  | shutdown => exact hsilent rfl (Keeps.afterInterrupt hmatched .serverKill)
  | connectionLost => exact hsilent rfl (Keeps.disconnected self)

/-- What a run with these events leaves. -/
def Accounted (events : List (Event δ κ π))
    (outcome : Except ConnectionFailure (FPersistentConnection δ κ π)) :
    Prop :=
  ∃ self, outcome = Except.ok self ∧ self.Consistent ∧
    Keeps (issued events) self

theorem accounted_run {events : List (Event δ κ π)}
    {outcome : Except ConnectionFailure (FPersistentConnection δ κ π)}
    (hrun : (machine δ κ π).run (Except.ok init) events = some outcome) :
    Accounted events outcome := by
  apply EventMachine.history_run _ _ hrun
  · rintro events _ event next ⟨self, rfl, hself, hkeeps⟩ hstep
    obtain ⟨hpossible, rfl⟩ := hself.step_iff.mp hstep
    have hafter := Keeps.after hkeeps.matched hself hpossible
    rw [hkeeps.accounted_eq, ← issued_concat] at hafter
    exact ⟨_, rfl, hself.after hpossible, hafter⟩
  · refine ⟨init, rfl, consistent_init, rfl, ?_⟩
    exact Keeps.matched_nil rfl

/-- The block of every put has been called once, or it has not been called and
waits in one of two places. -/
theorem blocks_of_run {events : List (Event δ κ π)}
    {outcome : Except ConnectionFailure (FPersistentConnection δ κ π)}
    (hrun : (machine δ κ π).run (Except.ok init) events = some outcome) :
    ∃ self, outcome = Except.ok self ∧
      issued events = self.called + self.waitingToAck + self.outstanding := by
  obtain ⟨self, houtcome, -, hkeeps⟩ := accounted_run hrun
  exact ⟨self, houtcome, hkeeps.accounted_eq.symm⟩

/-- The put is sent over two connections and answered on the second one. -/
def sentTwice : List (Event ℕ String ℕ) :=
  [.resume .waitingForOpen, .retry, .fetchToken 1 (some none), .handshake,
    .put ⟨.put, "stocks/AAPL", 1, none⟩ "saved", .connectionLost, .retry,
    .fetchToken 2 (some none), .handshake, .response 3 ⟨some "ok", none⟩]

theorem blocks_of_sentTwice :
    ∃ self, (machine ℕ String ℕ).run (Except.ok init) sentTwice =
        some (Except.ok self) ∧
      self.outstanding = 0 ∧ self.called = {"saved"} := by
  have hpossible : init.AllPossible sentTwice := by decide
  have hrun := consistent_init.run_eq hpossible
  obtain ⟨self, houtcome, hblocks⟩ := blocks_of_run hrun
  refine ⟨self, houtcome ▸ hrun, ?_⟩
  obtain rfl := Except.ok.inj houtcome
  refine ⟨rfl, ?_⟩
  have hissued : issued sentTwice = {"saved"} := rfl
  rw [← hissued, hblocks]
  rfl

end Listens

end FPersistentConnection

end FirebaseDatabase
