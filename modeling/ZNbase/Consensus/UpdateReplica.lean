import ZNbase.Consensus.RaftConsensus

/-!
# Updates of a replica

The calls of `RaftConsensus` that change a replica's log and its committed operations: `Update`,
which a leader calls on a follower, and `UpdateMajorityReplicated`, by which a leader's queue tells
that a majority has an operation.

- How many operations of a request can be prepared is the argument `numPrepared`. An operation that
  is prepared is added to the pending ones: the leases are only looked at on a leader, and a write
  that is turned away as a duplicate is one that cannot be prepared.
- `Update` returns once the log is synced up to `waitForOpId`. The wait is not part of
  `updateReplica`; its end is `Log.isSafeOpIdToApply`.
- The safe time that a request propagates goes to the tablet and is left out here.
-/

namespace RaftConsensus

variable {ι : Type*} [DecidableEq ι]

/-- Runs callbacks of appends one after the other. -/
def runCallbacks (q : PeerMessageQueue ι) (self : ι) (cfg : RaftConfig ι) (log : Log) (tie : ℕ) :
    List AppendCallback → Option (PeerMessageQueue ι)
  | [] => some q
  | c :: rest => do
    let q ← q.appendFinished self cfg.voters log c tie
    runCallbacks q self cfg log tie rest

/-! ## The request of a leader -/

/-- `LeaderRequest`: a request without the operations that the replica has. -/
structure LeaderRequest where
  precedingOpId : OpId
  messages : List ReplicateMsg
  deriving DecidableEq

/-- The loop of `DeduplicateLeaderRequestUnlocked`. `none` is the error for a request that is
outdated. -/
def dedupLoop (s : ReplicaState ι) : ℕ → OpId → List ReplicateMsg → Option LeaderRequest
  | _, preceding, [] => some ⟨preceding, []⟩
  | dedupUpToIndex, preceding, msg :: rest =>
    let isNew (dedupUpToIndex : ℕ) :=
      (dedupLoop s dedupUpToIndex preceding rest).map fun d =>
        { d with messages := msg :: d.messages }
    if msg.id.index ≤ s.lastCommittedOpId.index then dedupLoop s dedupUpToIndex msg.id rest
    else if msg.id.index ≤ dedupUpToIndex then
      match s.getPendingOpByIndex msg.id.index with
      | none => none
      | some round =>
        if round.id = msg.id then dedupLoop s dedupUpToIndex msg.id rest
        else isNew msg.id.index
    else isNew dedupUpToIndex

/-- `DeduplicateLeaderRequestUnlocked`. -/
def deduplicateLeaderRequest (s : ReplicaState ι) (request : ConsensusRequest ι) :
    Option LeaderRequest :=
  dedupLoop s s.lastReceivedOpId.index request.precedingId request.ops

/-- `CheckLeaderRequestOpIdSequence`. -/
def checkOpIdSequence : OpId → List ReplicateMsg → Bool
  | _, [] => true
  | prev, msg :: rest =>
    ReplicaState.checkOpInSequence prev msg.id && checkOpIdSequence msg.id rest

/-- How `CheckLeaderRequestUnlocked` can end: with a status that is not OK, with an error in the
response, or with the request accepted. -/
inductive CheckResult
  | failed
  | error (code : ConsensusErrorCode)
  | accepted (deduped : LeaderRequest)
  deriving DecidableEq

variable (r : RaftConsensus ι)

/-- The end of `CheckLeaderRequestUnlocked`: the caller becomes the leader the replica knows. -/
def acceptLeader (caller : ι) (deduped : LeaderRequest) :
    Option (RaftConsensus ι × CheckResult) :=
  match r.state.leaderUuid with
  | some leader => if leader = caller then some (r, .accepted deduped) else none
  | none => some ({ r with state := { r.state with leaderUuid := some caller } }, .accepted deduped)

/-- The part of `CheckLeaderRequestUnlocked` about the first new operation. It follows on the last
one received, or the operations from its index on are aborted. -/
def checkFirstMessage (self : ι) (cfg : RaftConfig ι) (caller : ι)
    (deduped : LeaderRequest) (tie : ℕ) : Option (RaftConsensus ι × CheckResult) :=
  match deduped.messages with
  | [] => r.acceptLeader caller deduped
  | first :: _ =>
    match r.state.isOpCommittedOrPending first.id with
    | none => none
    | some .committedOrPending => some (r, .failed)
    | some .missing => r.acceptLeader caller deduped
    | some .termMismatch => do
      let state ← r.state.abortOpsAfter deduped.precedingOpId.index
      let (callbacks, log) := r.log.resetLastSyncedEntryOpId deduped.precedingOpId
      let queue ← runCallbacks r.queue self cfg log tie callbacks
      acceptLeader { r with state := state, log := log, queue := queue } caller deduped

/-- `EnforceLogMatchingPropertyMatchesUnlocked`, and what follows it. -/
def enforceLogMatchingProperty (self : ι) (cfg : RaftConfig ι) (caller : ι)
    (deduped : LeaderRequest) (tie : ℕ) : Option (RaftConsensus ι × CheckResult) :=
  match r.state.isOpCommittedOrPending deduped.precedingOpId with
  | none => none
  | some .committedOrPending => r.checkFirstMessage self cfg caller deduped tie
  | some .missing => some (r, .error .precedingEntryDidntMatch)
  | some .termMismatch => do
    let state ← r.state.abortOpsAfter (deduped.precedingOpId.index - 1)
    some ({ r with state := state }, .error .precedingEntryDidntMatch)

/-- `CheckLeaderRequestUnlocked`. -/
def checkLeaderRequest (self : ι) (cfg : RaftConfig ι)
    (request : ConsensusRequest ι) (tie : ℕ) : Option (RaftConsensus ι × CheckResult) :=
  match deduplicateLeaderRequest r.state request with
  | none => some (r, .failed)
  | some deduped =>
    if ¬checkOpIdSequence deduped.precedingOpId deduped.messages then some (r, .failed)
    else if request.callerTerm < r.state.currentTerm then some (r, .error .invalidTerm)
    else
      (r.handleTermAdvance self request.callerTerm).enforceLogMatchingProperty self cfg
        request.callerUuid deduped tie

/-! ## UpdateReplica -/

/-- `FillConsensusResponseOKUnlocked`, with an error that was filled in before. -/
def fillConsensusResponse (error : Option ConsensusErrorCode) :
    ConsensusResponse where
  responderTerm := r.state.currentTerm
  status :=
    { lastReceived := r.state.lastReceivedOpId
      lastReceivedCurrentLeader := r.state.lastReceivedOpIdCurrentLeader
      lastCommittedIdx := r.state.lastCommittedOpId.index
      error := error }

/-- What `UpdateReplica` returns. -/
structure UpdateReplicaResult where
  response : ConsensusResponse
  /-- The operation to wait for in the log; an empty `wait_for_op_id` is `none`. -/
  waitForOpId : Option OpId := none
  startElection : Bool := false
  deriving DecidableEq

/-- The answers that `updateReplica` gets from outside. -/
structure UpdateContext where
  now : CoarseTimePoint
  numPrepared : ℕ
  earlyCommit : ApplyContext := {}
  markCommitted : ApplyContext := {}
  tie : ℕ := 0

/-- The lease of the caller is taken over, and no votes are cast for a while. -/
def acknowledgeLeader (cfg : RaftConfig ι) (request : ConsensusRequest ι)
    (now : CoarseTimePoint) : RaftConsensus ι :=
  { r with
    state :=
      match request.leaderLeaseDurationMs with
      | some ms =>
        r.state.updateOldLeaderLeaseExpirationOnNonLeader
          ⟨some request.callerUuid, now + ms * nsPerMs⟩
          ⟨some request.callerUuid, request.htLeaseExpiration.getD 0⟩
      | none => r.state
    withholdVotesUntil := now + cfg.flags.minimumElectionTimeoutMs * nsPerMs }

/-- The operation that `EarlyCommitUnlocked` commits up to. -/
def earlyApplyUpTo (s : ReplicaState ι) (request : ConsensusRequest ι) (deduped : LeaderRequest) :
    OpId :=
  let upTo := (s.pendingOperations.getLast?.map (·.id)).getD OpId.min0
  let upTo := if deduped.precedingOpId.index < upTo.index then deduped.precedingOpId else upTo
  if request.committedOpId.index < upTo.index then request.committedOpId else upTo

/-- The committed id that goes to the log with the new operations: not past the last of them, and
not before what was committed. -/
def committedForLog (request : ConsensusRequest ι) (prevCommitted : OpId)
    (msgs : List ReplicateMsg) : OpId :=
  let committed := request.committedOpId
  let committed :=
    match msgs.getLast? with
    | some last => if last.id < committed then last.id else committed
    | none => committed
  if committed.index < prevCommitted.index then prevCommitted else committed

/-- `EnqueueWritesUnlocked`. `prevCommitted` is what was committed when the update began. -/
def enqueueWrites (request : ConsensusRequest ι) (prevCommitted : OpId)
    (msgs : List ReplicateMsg) : Option (RaftConsensus ι) :=
  let committed := committedForLog request prevCommitted msgs
  if msgs ≠ [] ∨ prevCommitted ≠ committed then do
    let (queue, log) ← r.queue.appendOperations r.log msgs committed
    some { r with queue := queue, log := log }
  else some r

/-- `MarkOperationsAsCommittedUnlocked`, with whether its status is OK. -/
def markOperationsAsCommitted (s : ReplicaState ι) (request : ConsensusRequest ι)
    (deduped : LeaderRequest) (ctx : ApplyContext) : Option (Bool × ReplicaState ι) :=
  let lastFromLeader := (deduped.messages.getLast?.map (·.id)).getD deduped.precedingOpId
  let applyUpTo :=
    if lastFromLeader.index < request.committedOpId.index then lastFromLeader
    else request.committedOpId
  match deduped.messages.getLast? with
  | some last => (s.updateLastReceivedOpId last.id).advanceCommittedOpId ctx applyUpTo true
  | none =>
    if s.lastReceivedOpId.index < deduped.precedingOpId.index then some (false, s)
    else s.advanceCommittedOpId ctx applyUpTo true

/-- `UpdateReplica` from the writes to the log on. -/
def finishUpdate (request : ConsensusRequest ι) (prevCommitted : OpId)
    (deduped : LeaderRequest) (ctx : ApplyContext) :
    Option (RaftConsensus ι × Option UpdateReplicaResult) := do
  let r ← r.enqueueWrites request prevCommitted deduped.messages
  let (ok, state) ← markOperationsAsCommitted r.state request deduped ctx
  let r := { r with state := state }
  if ok then
    some (r, some
      { response := r.fillConsensusResponse none
        waitForOpId := if deduped.messages = [] then none else some state.lastReceivedOpId
        startElection :=
          state.pendingElectionOpId.any fun id => id.index ≤ state.lastCommittedOpId.index })
  else some (r, none)

/-- `EnqueuePreparesUnlocked`, and what follows it. -/
def enqueuePrepares (request : ConsensusRequest ι) (prevCommitted : OpId)
    (deduped : LeaderRequest) (ctx : UpdateContext) :
    Option (RaftConsensus ι × Option UpdateReplicaResult) :=
  let r := r.updateClock (deduped.messages.getLast?.map (·.hybridTime))
  let prepared := deduped.messages.take ctx.numPrepared
  if deduped.messages ≠ [] ∧ prepared = [] then
    some (r, some { response := r.fillConsensusResponse (some .cannotPrepare) })
  else
    let state :=
      { r.state with pendingOperations := r.state.pendingOperations ++ prepared }
    finishUpdate { r with state := state } request prevCommitted
      { deduped with messages := prepared } ctx.markCommitted

/-- `UpdateReplica` once the request is accepted. -/
def applyLeaderRequest (cfg : RaftConfig ι) (request : ConsensusRequest ι)
    (prevCommitted : OpId) (deduped : LeaderRequest) (ctx : UpdateContext) :
    Option (RaftConsensus ι × Option UpdateReplicaResult) := do
  let r := r.acknowledgeLeader cfg request ctx.now
  let (ok, state) ←
    r.state.advanceCommittedOpId ctx.earlyCommit (earlyApplyUpTo r.state request deduped) true
  let r := { r with state := state }
  if ok then r.enqueuePrepares request prevCommitted deduped ctx else some (r, none)

/-- `UpdateReplica`. The result is `none` if the status is not OK, and then the caller gets no
response. -/
def updateReplica (self : ι) (cfg : RaftConfig ι)
    (request : ConsensusRequest ι) (ctx : UpdateContext) :
    Option (RaftConsensus ι × Option UpdateReplicaResult) := do
  let r := r.updateClock request.propagatedHybridTime
  let prevCommitted := r.state.lastCommittedOpId
  let (r, check) ← r.checkLeaderRequest self cfg request ctx.tie
  match check with
  | .failed => some (r, none)
  | .error code => some (r, some { response := r.fillConsensusResponse (some code) })
  | .accepted deduped => r.applyLeaderRequest cfg request prevCommitted deduped ctx

/-! ## Notifications of a leader's queue -/

/-- Sets the leases that a majority has. A lease of an old leader that has accepted a lease of this
leader is given up. -/
def setMajorityReplicatedLeases (cfg : RaftConfig ι)
    (data : MajorityReplicatedData) : ReplicaState ι :=
  let accepted (holder : Option ι) : Bool :=
    cfg.flags.enableLeaseRevocation && holder.any r.queue.peerAcceptedOurLease
  r.state.setMajorityReplicatedLeaseExpiration data
    (accepted r.state.oldLeaderLease.holderUuid) (accepted r.state.oldLeaderHtLease.holderUuid)

/-- Once all operations are committed, an empty batch records the committed id in the log. -/
def writeCommittedOpId (changed : Bool) : Option (RaftConsensus ι) :=
  if changed ∧ r.state.lastCommittedOpId = r.state.lastReceivedOpId then
    (r.queue.appendOperations r.log [] r.state.lastCommittedOpId).map fun (queue, log) =>
      { r with queue := queue, log := log }
  else some r

/-- `UpdateMajorityReplicated`, and the end of the task of the queue that calls it. -/
def updateMajorityReplicated (self : ι) (cfg : RaftConfig ι)
    (data : MajorityReplicatedData) (ctx : ApplyContext) : Option (RaftConsensus ι) :=
  if ¬r.isLeader self then some r
  else
    match (r.setMajorityReplicatedLeases cfg data).updateMajorityReplicated ctx data.opId with
    | none => none
    | some (false, state) => some { r with state := state }
    | some (true, state) =>
      (writeCommittedOpId { r with state := state }
          (state.lastCommittedOpId.index ≠ r.state.lastCommittedOpId.index)).map fun r =>
        { r with queue := r.queue.raiseCommitted state.lastCommittedOpId }

/-- Replaces the queue of a replica. -/
def withQueue (queue : PeerMessageQueue ι) : RaftConsensus ι :=
  { r with queue := queue }

/-- The next notification runs. An observer that is not registered does not get it. -/
def runNotification (self : ι) (cfg : RaftConfig ι) (ctx : ApplyContext) :
    Option (RaftConsensus ι) :=
  match r.queue.notifications with
  | [] => none
  | n :: rest =>
    let r := r.withQueue { r.queue with notifications := rest }
    if r.queue.observerRegistered then
      match n with
      | .majorityReplOpChange data => r.updateMajorityReplicated self cfg data ctx
      | .termChange term => some (r.handleTermAdvance self term)
    else some r

/-! ## The appender -/

/-- The appender writes a batch. -/
def processBatch : Option (RaftConsensus ι) :=
  r.log.processBatch.map fun log => { r with log := log }

/-- The appender syncs the log. -/
def groupWork : Option (RaftConsensus ι) :=
  r.log.groupWork.map fun log => { r with log := log }

/-- The log rolls over to a new segment. -/
def rollOver : RaftConsensus ι := { r with log := r.log.rollOver }

/-- The appender runs the callback of a batch. -/
def runCallback (self : ι) (cfg : RaftConfig ι) (tie : ℕ) :
    Option (RaftConsensus ι) :=
  match r.log.takeCallback with
  | none => none
  | some (c, log) =>
    (r.queue.appendFinished self cfg.voters log c tie).map fun queue =>
      { r with log := log, queue := queue }

end RaftConsensus
