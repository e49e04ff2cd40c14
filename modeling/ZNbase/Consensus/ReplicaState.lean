import ZNbase.Consensus.LeaderLease
import ZNbase.Consensus.PeerMessageQueue

/-!
# The state of a replica

`ReplicaState` of `consensus/replica_state.cc`: the term and the vote of a replica, the operations
it has received and not yet applied, and the leader leases it knows about.

- Every function runs under `update_lock_`. `none` stands for a failed `CHECK`, and for a wait
  that is not over.
- `applied` lists the operations whose replication has finished, in the order in which they were
  handed to the tablet. The source keeps no such list, it calls the operations back.
- The consensus metadata is a pair of the term and the vote. `flushed` is the pair on disk.
- What `ApplyPendingOperationsUnlocked` asks of other components is the argument `ApplyContext`.
- The config of the tablet is fixed: `CHANGE_CONFIG_OP` is an operation like `NO_OP`. Tablet
  splitting and the states before `kRunning` are left out. Whether `RetryableRequests::Register`
  accepts a write is an argument.
-/

open CoarseTimePoint

/-- What `ConsensusMetadata` writes to disk. -/
structure PersistentMetadata (ι : Type*) where
  currentTerm : ℕ := 0
  votedFor : Option ι := none
  deriving DecidableEq

/-- The answers of the tablet and of the log to a replica that applies operations. -/
structure ApplyContext where
  shouldApplyWrite : OpId → Bool := fun _ => true
  /-- What `WaitForSafeOpIdToApply` returns when called with an operation id. -/
  safeOpIdToApply : OpId → OpId := id

/-- The state of a `ReplicaState`. -/
structure ReplicaState (ι : Type*) where
  currentTerm : ℕ := 0
  votedFor : Option ι := none
  leaderUuid : Option ι := none
  flushed : PersistentMetadata ι := {}
  nextIndex : ℕ := 1
  lastReceivedOpId : OpId := OpId.min0
  lastReceivedOpIdCurrentLeader : OpId := OpId.min0
  lastCommittedOpId : OpId := OpId.min0
  pendingOperations : List ReplicateMsg := []
  applied : List ReplicateMsg := []
  /-- An empty `pending_election_opid_` is `none`. -/
  pendingElectionOpId : Option OpId := none
  oldLeaderLease : CoarseTimeLease ι := CoarseTimeLease.none
  oldLeaderHtLease : PhysicalComponentLease ι := PhysicalComponentLease.none
  majorityReplicatedLeaseExpiration : CoarseTimePoint := min
  majorityReplicatedHtLeaseExpiration : MicrosTime := 0
  deriving DecidableEq

namespace ReplicaState

variable {ι : Type*}

/-! ## Term, vote and leader -/

variable (s : ReplicaState ι)

/-- Writes the term and the vote to disk. -/
def flush : ReplicaState ι :=
  { s with flushed := ⟨s.currentTerm, s.votedFor⟩ }

/-- `SetCurrentTermUnlocked`, for a term above the current one. -/
def setCurrentTerm (newTerm : ℕ) : ReplicaState ι :=
  let s := { s with currentTerm := newTerm, votedFor := none }.flush
  { s with leaderUuid := none, lastReceivedOpIdCurrentLeader := OpId.min0 }

/-- `SetVotedForCurrentTermUnlocked`. -/
def setVotedForCurrentTerm (uuid : ι) : ReplicaState ι :=
  { s with votedFor := some uuid }.flush

/-- Whether the active role of the replica `self` is `LEADER`. -/
def isLeader [DecidableEq ι] (s : ReplicaState ι) (self : ι) : Bool := s.leaderUuid = some self

/-! ## Pending operations -/

/-- `NewIdUnlocked`. -/
def newId : OpId × ReplicaState ι :=
  (⟨s.currentTerm, s.nextIndex⟩, { s with nextIndex := s.nextIndex + 1 })

/-- `UpdateLastReceivedOpIdUnlocked`. -/
def updateLastReceivedOpId (opId : OpId) : ReplicaState ι :=
  { s with
    lastReceivedOpId := opId
    lastReceivedOpIdCurrentLeader := opId
    nextIndex := opId.index + 1 }

/-- `GetPendingOpByIndexOrNullUnlocked`. -/
def getPendingOpByIndex (index : ℕ) : Option ReplicateMsg :=
  s.pendingOperations.find? fun m => m.id.index = index

/-- The answers of `IsOpCommittedOrPending`: the last one is that the operation at the index has
another term. -/
inductive OpLookup
  | committedOrPending
  | missing
  | termMismatch
  deriving DecidableEq

/-- `IsOpCommittedOrPending`. A committed index is accepted with any term. -/
def isOpCommittedOrPending (opId : OpId) : Option OpLookup :=
  if opId.index ≤ s.lastCommittedOpId.index then some .committedOrPending
  else if s.lastReceivedOpId.index < opId.index then some .missing
  else
    (s.getPendingOpByIndex opId.index).map fun round =>
      if round.id.term ≠ opId.term then .termMismatch else .committedOrPending

/-- `AbortOpsAfterUnlocked`. -/
def abortOpsAfter (newPrecedingIdx : ℕ) : Option (ReplicaState ι) :=
  let truncate (newPreceding : OpId) : ReplicaState ι :=
    { s with
      lastReceivedOpId := newPreceding
      lastReceivedOpIdCurrentLeader := newPreceding
      nextIndex := newPreceding.index + 1
      pendingOperations :=
        s.pendingOperations.takeWhile fun m => m.id.index ≤ newPrecedingIdx }
  match s.getPendingOpByIndex newPrecedingIdx with
  | some round => some (truncate round.id)
  | none =>
    if newPrecedingIdx = s.lastCommittedOpId.index then some (truncate s.lastCommittedOpId)
    else none

/-- `CancelPendingOperation`. The operation before the cancelled one gets its term. -/
def cancelPendingOperation (id : OpId) (shouldExist : Bool) :
    Option (ReplicaState ι) :=
  if s.currentTerm = id.term ∧ s.nextIndex = id.index + 1 then
    some { s with
      nextIndex := id.index
      lastReceivedOpId := ⟨id.term, id.index - 1⟩
      pendingOperations :=
        if shouldExist then s.pendingOperations.dropLast else s.pendingOperations }
  else none

/-! ## Leases -/

/-- `UpdateOldLeaderLeaseExpirationOnNonLeaderUnlocked`. -/
def updateOldLeaderLeaseExpirationOnNonLeader (lease : CoarseTimeLease ι)
    (htLease : PhysicalComponentLease ι) : ReplicaState ι :=
  { s with
    oldLeaderLease := s.oldLeaderLease.tryUpdate lease
    oldLeaderHtLease := s.oldLeaderHtLease.tryUpdate htLease
    majorityReplicatedLeaseExpiration := min
    majorityReplicatedHtLeaseExpiration := 0 }

/-- `RemainingOldLeaderLeaseDuration`, in nanoseconds, and the state after it: a lease that has
expired is forgotten. -/
def remainingOldLeaderLeaseDuration (now : CoarseTimePoint) :
    Option ℤ × ReplicaState ι :=
  if s.oldLeaderLease.expiration = min then (none, s)
  else if s.oldLeaderLease.expiration < now then
    (none, { s with oldLeaderLease := CoarseTimeLease.none })
  else (some (s.oldLeaderLease.expiration - now), s)

/-- `GetLeaseStatusUnlocked`, from what the policy answers. -/
def getLeaseStatus (numPeers : ℕ) (enabled oldLeaderLeaseExpired majorityLeaseExpired : Bool) :
    LeaderLeaseStatus :=
  if ¬enabled ∨ numPeers = 1 then .hasLease
  else if ¬oldLeaderLeaseExpired then .oldLeaderMayHaveLease
  else if majorityLeaseExpired then .noMajorityReplicatedLease
  else .hasLease

/-- `GetLeaderLeaseStatusUnlocked`. -/
def getLeaderLeaseStatus (numPeers : ℕ) (now : CoarseTimePoint) :
    LeaderLeaseStatus :=
  getLeaseStatus numPeers true (s.remainingOldLeaderLeaseDuration now).1.isNone
    (s.majorityReplicatedLeaseExpiration = epoch ∨
      s.majorityReplicatedLeaseExpiration ≤ now)

/-- `GetHybridTimeLeaseStatusAtUnlocked`. -/
def getHybridTimeLeaseStatusAt (flags : RaftFlags) (numPeers : ℕ)
    (microsTime : MicrosTime) : LeaderLeaseStatus :=
  getLeaseStatus numPeers (flags.htLeaseDurationMs ≠ 0)
    (s.oldLeaderHtLease.expiration < microsTime)
    (s.majorityReplicatedHtLeaseExpiration ≤ microsTime)

/-- `SetMajorityReplicatedLeaseExpirationUnlocked`. -/
def setMajorityReplicatedLeaseExpiration (data : MajorityReplicatedData)
    (resetOldLeaderLease resetOldLeaderHtLease : Bool) : ReplicaState ι :=
  { s with
    majorityReplicatedLeaseExpiration := data.leaderLeaseExpiration
    majorityReplicatedHtLeaseExpiration := data.htLeaseExpiration
    oldLeaderLease := if resetOldLeaderLease then CoarseTimeLease.none else s.oldLeaderLease
    oldLeaderHtLease :=
      if resetOldLeaderHtLease then PhysicalComponentLease.none else s.oldLeaderHtLease }

/-! ## Adding operations -/

/-- Why an operation is not added. -/
inductive AddPendingError
  | leaderHasNoLease
  | alreadyPresent
  deriving DecidableEq

/-- `AddPendingOperation`. `registered` is the answer of `RetryableRequests::Register`. -/
def addPendingOperation [DecidableEq ι] (s : ReplicaState ι) (flags : RaftFlags) (self : ι)
    (numPeers : ℕ) (now : CoarseTimePoint) (round : ReplicateMsg) (registered : Bool) :
    Except AddPendingError (ReplicaState ι) :=
  let needsLease :=
    s.isLeader self ∧ round.opType ≠ .noOp ∧ round.opType ≠ .changeConfigOp
  if needsLease ∧
      (s.getHybridTimeLeaseStatusAt flags numPeers
          (HybridTime.getPhysicalValueMicros round.hybridTime) = .oldLeaderMayHaveLease ∨
        s.getLeaderLeaseStatus numPeers now = .oldLeaderMayHaveLease) then
    .error .leaderHasNoLease
  else if round.opType = .writeOp ∧ ¬registered then .error .alreadyPresent
  else .ok { s with pendingOperations := s.pendingOperations ++ [round] }

/-! ## Committing operations -/

/-- `CheckOpInSequence`. -/
def checkOpInSequence (previous current : OpId) : Bool :=
  previous.term ≤ current.term ∧ current.index = previous.index + 1

/-- The loop of `ApplyPendingOperationsUnlocked`: the operations that are applied, in order, those
that stay pending, and whether the loop ended well. Operations are compared with the committed id
by index. `none` is a failed `CHECK`, or a wait for the log that has not ended. -/
def applyLoop (ctx : ApplyContext) (couldStop : Bool) (committedIndex : ℕ) :
    OpId → OpId → List ReplicateMsg → Option (List ReplicateMsg × List ReplicateMsg × Bool)
  | _, _, [] => some ([], [], true)
  | prevId, maxAllowed, round :: rest =>
    if prevId ≠ OpId.min0 ∧ ¬checkOpInSequence prevId round.id then none
    else if committedIndex < round.id.index then some ([], round :: rest, true)
    else
      let apply (maxAllowed : OpId) :=
        (applyLoop ctx couldStop committedIndex round.id maxAllowed rest).map
          fun (done, left, ok) => (round :: done, left, ok)
      if round.opType = .writeOp then
        if couldStop ∧ ¬ctx.shouldApplyWrite round.id then some ([], round :: rest, true)
        else apply maxAllowed
      else if maxAllowed.index < round.id.index ∨ maxAllowed.term < round.id.term then
        -- anything but a write has to be in the log before it is applied
        let maxAllowed := ctx.safeOpIdToApply round.id
        if maxAllowed < round.id then none
        else if maxAllowed.index < round.id.index ∨ maxAllowed.term < round.id.term then
          some ([], round :: rest, false)
        else apply maxAllowed
      else apply maxAllowed

/-- The state once the operations `done` are applied and `left` stay pending. -/
def finishApply (done left : List ReplicateMsg) : ReplicaState ι :=
  { s with
    pendingOperations := left
    applied := s.applied ++ done
    lastCommittedOpId := (done.getLast?.map (·.id)).getD s.lastCommittedOpId }

/-- `ApplyPendingOperationsUnlocked`, with whether its status is OK. -/
def applyPendingOperations (ctx : ApplyContext) (committedIndex : ℕ)
    (couldStop : Bool) : Option (Bool × ReplicaState ι) :=
  (applyLoop ctx couldStop committedIndex s.lastCommittedOpId OpId.min0
      s.pendingOperations).map fun (done, left, ok) => (ok, s.finishApply done left)

/-- `AdvanceCommittedOpIdUnlocked`, with whether its status is OK. -/
def advanceCommittedOpId (ctx : ApplyContext) (committedOpId : OpId)
    (couldStop : Bool) : Option (Bool × ReplicaState ι) :=
  if committedOpId.index ≤ s.lastCommittedOpId.index then some (true, s)
  else if s.pendingOperations = [] then some (false, s)
  else s.applyPendingOperations ctx committedOpId.index couldStop

/-- `UpdateMajorityReplicatedUnlocked`: what a majority has is committed once it, or what was
committed before, is of the current term. -/
def updateMajorityReplicated (ctx : ApplyContext)
    (majorityReplicated : OpId) : Option (Bool × ReplicaState ι) :=
  if s.lastCommittedOpId.term = s.currentTerm ∨ majorityReplicated.term = s.currentTerm then
    s.advanceCommittedOpId ctx majorityReplicated false
  else some (true, s)

/-! ## What the functions do -/

variable {s s' : ReplicaState ι} {ctx : ApplyContext} {couldStop ok : Bool}

/-- The loop applies a prefix of the pending operations, none of them past the committed index. -/
lemma applyLoop_spec {committedIndex : ℕ} {prevId maxAllowed : OpId}
    {pending done left : List ReplicateMsg}
    (h : applyLoop ctx couldStop committedIndex prevId maxAllowed pending = some (done, left, ok)) :
    pending = done ++ left ∧ ∀ m ∈ done, m.id.index ≤ committedIndex := by
  induction pending generalizing prevId maxAllowed done left with
  | nil =>
    obtain ⟨rfl, rfl, -⟩ := h
    simp
  | cons round rest ih =>
    -- every branch either stops here or applies `round` and goes on
    have hgo : ∀ maxAllowed, round.id.index ≤ committedIndex →
        (applyLoop ctx couldStop committedIndex round.id maxAllowed rest).map
          (fun (done, left, ok) => (round :: done, left, ok)) = some (done, left, ok) →
        round :: rest = done ++ left ∧ ∀ m ∈ done, m.id.index ≤ committedIndex := by
      intro maxAllowed hrnd hmap
      obtain ⟨⟨done', left', ok'⟩, hrec, heq⟩ := Option.map_eq_some_iff.1 hmap
      obtain ⟨rfl, rfl, rfl⟩ := heq
      obtain ⟨hrest, hdone⟩ := ih hrec
      refine ⟨by rw [hrest, List.cons_append], ?_⟩
      rintro m (_ | ⟨_, hm⟩)
      · exact hrnd
      · exact hdone m hm
    have hstop : ∀ ok', some (([] : List ReplicateMsg), round :: rest, ok') =
        some (done, left, ok) →
        round :: rest = done ++ left ∧ ∀ m ∈ done, m.id.index ≤ committedIndex := by
      intro ok' heq
      obtain ⟨rfl, rfl, -⟩ := heq
      simp
    simp only [applyLoop] at h
    split_ifs at h with _ hpast
    · exact hstop _ h
    · exact hstop _ h
    · exact hgo _ (not_lt.1 hpast) h
    · exact hstop _ h
    all_goals exact hgo _ (not_lt.1 hpast) h

/-- Committing applies a prefix of the pending operations, none of them past the id's index, and
changes nothing else. -/
lemma advanceCommittedOpId_spec {committedOpId : OpId}
    (h : s.advanceCommittedOpId ctx committedOpId couldStop = some (ok, s')) :
    ∃ done left, s.pendingOperations = done ++ left ∧
      (∀ m ∈ done, m.id.index ≤ committedOpId.index) ∧ s' = s.finishApply done left := by
  have hnone : s = s.finishApply [] s.pendingOperations := by simp [finishApply]
  simp only [advanceCommittedOpId] at h
  split_ifs at h with h₁ h₂
  · cases h
    exact ⟨[], s.pendingOperations, rfl, by simp, hnone⟩
  · cases h
    exact ⟨[], s.pendingOperations, rfl, by simp, hnone⟩
  · obtain ⟨⟨done, left, ok'⟩, hloop, heq⟩ := Option.map_eq_some_iff.1 h
    obtain ⟨hpend, hdone⟩ := applyLoop_spec hloop
    exact ⟨done, left, hpend, hdone, (Prod.mk.inj heq).2.symm⟩

end ReplicaState
