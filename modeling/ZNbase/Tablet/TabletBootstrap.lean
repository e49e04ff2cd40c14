import ZNbase.Common.OpId
import ZNbase.Docdb.ConflictResolver
import ZNbase.Docdb.ValueType

/-!
# Replay of the log

`TabletBootstrap::PlaySegments` of `tablet/tablet_bootstrap.cc`: when a tablet is opened, the
committed operations of its log that are not yet in its databases are applied again, and the
operations that were not committed are handed over to consensus.

- A segment is what `ReadEntries` returns for it, without an error.
- What it means to apply an operation is a parameter (`PlayRequest`); the operations that were
  applied are recorded as `test_hooks_->Replayed` reports them, and the requests that were handed to
  `retryable_requests` as `test_hooks_->RetryableRequest` reports them.
- An intents database that is not there has the flushed id `OpId()`. The source has
  `OpId::Invalid()` then, and both are below the index of every operation.
- Left out: the clock, the monotonic counter, the copy of the log that is written without
  `skip_wal_rewrite`, and what is only logged.
-/

namespace TabletBootstrap

open HybridTime

/-- `consensus::OperationType`. -/
inductive OpType
  | unknownOp
  | noOp
  | writeOp
  | changeMetadataOp
  | changeConfigOp
  | updateTransactionOp
  | snapshotOp
  | truncateOp
  | historyCutoffOp
  | splitOp
  deriving DecidableEq

/-- What is read of a write batch. -/
structure WriteBatch where
  hasTransaction : Bool := false
  /-- The keys of its pairs. -/
  keys : List KeyBytes := []
  deriving DecidableEq

/-- What is read of a `ReplicateMsg`. -/
structure Replicate where
  id : OpId
  committedOpId : OpId
  hybridTime : HybridTime
  opType : OpType
  /-- The status of the transaction state, if there is one. -/
  transactionState : Option ReplyStatus := none
  /-- The write request, if there is one, with its write batch, if there is one. -/
  writeRequest : Option (Option WriteBatch) := none
  deriving DecidableEq

/-- `Entry`: an entry of the log, with its time. -/
structure Entry where
  replicate : Replicate
  entryTime : ℤ
  deriving DecidableEq

/-- What `ReadEntries` returns for a segment. -/
structure LogSegment where
  entries : List Entry
  /-- `committed_op_id` of the last batch that has one. -/
  committedOpId : OpId := .min0
  deriving DecidableEq

/-- `DocDbOpIds`. -/
structure DocDbOpIds where
  regular : OpId
  intents : OpId
  deriving DecidableEq

/-- Why the tablet cannot be opened. -/
inductive BootstrapError
  /-- "Unexpected op id following op id $0". -/
  | unexpectedOpId (prevOpId opId : OpId)
  /-- "Failed to play $0 request". -/
  | failedToPlay (opId : OpId)
  /-- "WAL files missing, or committed op id is incorrect." -/
  | walFilesMissing (prevOpId committedOpId : OpId)
  deriving DecidableEq

/-- Whether an operation can be applied; the flag says that it has been applied to the regular
database. -/
abbrev PlayRequest := Replicate → Bool → Bool

/-- `ReplayDecision`. -/
structure ReplayDecision where
  shouldReplay : Bool := false
  alreadyAppliedToRegularDb : Bool := false
  deriving DecidableEq

/-- `ShouldReplayOperation`. -/
def shouldReplayOperation (opType : OpType) (index regularFlushedIndex intentsFlushedIndex : ℕ)
    (txnStatus : ReplyStatus) (writeOpHasTransaction : Bool) : ReplayDecision :=
  if index ≤ min regularFlushedIndex intentsFlushedIndex then { shouldReplay := false }
  else if opType = .updateTransactionOp then
    if txnStatus = .applying ∧ intentsFlushedIndex < index ∧ index ≤ regularFlushedIndex then
      { shouldReplay := true, alreadyAppliedToRegularDb := true }
    else { shouldReplay := regularFlushedIndex < index }
  else if opType = .writeOp ∧ writeOpHasTransaction then
    { shouldReplay := intentsFlushedIndex < index }
  else { shouldReplay := regularFlushedIndex < index }

/-- `WriteOpHasTransaction`. -/
def writeOpHasTransaction (replicate : Replicate) : Bool :=
  match replicate.writeRequest with
  | none | some none => false
  | some (some writeBatch) =>
    writeBatch.hasTransaction ||
      writeBatch.keys.any fun key => key.head? = some ValueType.kExternalTransactionId

/-- The decision that `MaybeReplayCommittedEntry` takes. -/
def replayDecision (storedOpIds : DocDbOpIds) (replicate : Replicate) : ReplayDecision :=
  shouldReplayOperation replicate.opType replicate.id.index storedOpIds.regular.index
    storedOpIds.intents.index (replicate.transactionState.getD .aborted)
    (writeOpHasTransaction replicate)

/-- `ReplayState`. -/
structure ReplayState where
  prevOpId : OpId := .min0
  committedOpId : OpId := .min0
  /-- In the order of the index. -/
  pendingReplicates : List Entry := []
  storedOpIds : DocDbOpIds
  numEntriesAppliedToRocksdb : ℕ := 0
  maxCommittedHybridTime : HybridTime := kMin
  /-- What `test_hooks_->Replayed` was called with. -/
  replayed : List (Replicate × Bool) := []
  /-- What `test_hooks_->RetryableRequest` was called with. -/
  retryableRequests : List (OpId × ℤ) := []

namespace ReplayState

variable (s : ReplayState)

/-- `UpdateCommittedOpId`. -/
def updateCommittedOpId (id : OpId) : ReplayState :=
  if s.committedOpId < id then { s with committedOpId := id } else s

/-- `UpdateCommittedFromStored`. -/
def updateCommittedFromStored : ReplayState :=
  let s := if s.committedOpId < s.storedOpIds.regular then
    { s with committedOpId := s.storedOpIds.regular } else s
  if s.committedOpId < s.storedOpIds.intents then
    { s with committedOpId := s.storedOpIds.intents } else s

/-- `IsValidSequence`: whether `b` can follow `a` in the log. -/
def isValidSequence (a b : OpId) : Bool :=
  if a.term = 0 ∧ a.index = 0 then true
  else if b.term = a.term ∧ a.index + 1 < b.index then false
  else true

/-- `CheckSequentialReplicateId`. -/
def checkSequentialReplicateId (opId : OpId) : Except BootstrapError ReplayState :=
  if isValidSequence s.prevOpId opId then .ok { s with prevOpId := opId }
  else .error (.unexpectedOpId s.prevOpId opId)

/-- `CanApply`. -/
def canApply (entry : Entry) : Bool := entry.replicate.id ≤ s.committedOpId

/-- `GetLowestOpIdToReplay`. -/
def getLowestOpIdToReplay (storedOpIds : DocDbOpIds) (hasIntentsDb : Bool) : OpId :=
  if hasIntentsDb then min storedOpIds.regular storedOpIds.intents else storedOpIds.regular

/-- `HandleRetryableRequest`. -/
def handleRetryableRequest (entry : Entry) : ReplayState :=
  if entry.replicate.writeRequest.isSome then
    { s with retryableRequests := s.retryableRequests ++ [(entry.replicate.id, entry.entryTime)] }
  else s

/-- `MaybeReplayCommittedEntry`. -/
def maybeReplayCommittedEntry (play : PlayRequest) (s : ReplayState) (entry : Entry) :
    Except BootstrapError ReplayState :=
  let replicate := entry.replicate
  let decision := replayDecision s.storedOpIds replicate
  let s := s.handleRetryableRequest entry
  if decision.shouldReplay then
    let s := { s with replayed := s.replayed ++ [(replicate, decision.alreadyAppliedToRegularDb)] }
    if play replicate decision.alreadyAppliedToRegularDb then
      .ok { s with
        maxCommittedHybridTime := makeAtLeast s.maxCommittedHybridTime replicate.hybridTime }
    else .error (.failedToPlay replicate.id)
  else .ok s

/-- The loop of `ApplyCommittedPendingReplicates` over the pending entries. -/
def applyCommittedLoop (play : PlayRequest) :
    List Entry → ReplayState → Except BootstrapError ReplayState
  | [], s => .ok { s with pendingReplicates := [] }
  | entry :: rest, s =>
    if s.canApply entry then do
      let s ← s.maybeReplayCommittedEntry play entry
      applyCommittedLoop play rest
        { s with numEntriesAppliedToRocksdb := s.numEntriesAppliedToRocksdb + 1 }
    else .ok { s with pendingReplicates := entry :: rest }

/-- `ApplyCommittedPendingReplicates`. -/
def applyCommittedPendingReplicates (play : PlayRequest) (s : ReplayState) :
    Except BootstrapError ReplayState :=
  applyCommittedLoop play s.pendingReplicates s

/-- `HandleReplicateMessage`. -/
def handleReplicateMessage (play : PlayRequest) (s : ReplayState) (entry : Entry) :
    Except BootstrapError ReplayState := do
  let s ← s.checkSequentialReplicateId entry.replicate.id
  -- an entry with the same or a higher index is overwritten
  let kept := s.pendingReplicates.filter fun existing =>
    existing.replicate.id.index < entry.replicate.id.index
  let s := { s with pendingReplicates := kept ++ [entry] }
  (s.updateCommittedOpId entry.replicate.committedOpId).applyCommittedPendingReplicates play

end ReplayState

/-- The loop of `SkipFlushedEntries`, from the last segment to the first one; `after` are the
segments that it has gone past. -/
def skipFlushedEntriesLoop (lowest : OpId) (minSecondsToRetainLogs : ℤ) :
    List LogSegment → List LogSegment → Option ℤ → List LogSegment
  | [], after, _ => after
  | segment :: before, after, replayFrom =>
    match segment.entries with
    | [] => skipFlushedEntriesLoop lowest minSecondsToRetainLogs before
      (segment :: after) replayFrom
    | first :: _ =>
      let replayFromTime := replayFrom.getD (first.entryTime - minSecondsToRetainLogs)
      if first.replicate.id ≤ lowest ∧ first.entryTime ≤ replayFromTime then segment :: after
      else skipFlushedEntriesLoop lowest minSecondsToRetainLogs before (segment :: after)
        (some replayFromTime)

/-- `SkipFlushedEntries`: the segments to replay. -/
def skipFlushedEntries (lowest : OpId) (minSecondsToRetainLogs : ℤ) (segments : List LogSegment) :
    List LogSegment :=
  skipFlushedEntriesLoop lowest minSecondsToRetainLogs segments.reverse [] none

/-- What `PlaySegments` reads besides the log. -/
structure Options where
  /-- `FLAGS_skip_flushed_entries`. -/
  skipFlushedEntries : Bool
  /-- `FLAGS_retryable_request_timeout_secs`. -/
  retryableRequestTimeoutSecs : ℤ
  hasIntentsDb : Bool
  flushedOpIds : DocDbOpIds
  maxPersistentHybridTime : HybridTime
  deriving DecidableEq

/-- `ConsensusBootstrapInfo`, with what was replayed. -/
structure BootstrapInfo where
  orphanedReplicates : List Replicate
  lastId : OpId
  lastCommittedId : OpId
  /-- `SetLastReplicated` of the MVCC manager. -/
  lastReplicated : HybridTime
  replayed : List (Replicate × Bool)
  retryableRequests : List (OpId × ℤ)
  deriving DecidableEq

/-- One segment: the greatest `committed_op_id` so far, and the state. -/
def playSegment (play : PlayRequest) (state : OpId × ReplayState) (segment : LogSegment) :
    Except BootstrapError (OpId × ReplayState) := do
  let s ← segment.entries.foldlM (ReplayState.handleReplicateMessage play) state.2
  return (max state.1 segment.committedOpId, s)

/-- What is done with the committed op id of the segments, after all of them. -/
def applyLastCommitted (play : PlayRequest) (lastCommittedOpId : OpId) (s : ReplayState) :
    Except BootstrapError ReplayState :=
  if s.committedOpId.index < lastCommittedOpId.index then
    match s.pendingReplicates.find? fun e => e.replicate.id.index = lastCommittedOpId.index with
    | some entry =>
      if lastCommittedOpId.term = entry.replicate.id.term then
        (s.updateCommittedOpId lastCommittedOpId).applyCommittedPendingReplicates play
      else .ok s
    | none => .ok s
  else .ok s

/-- `PlaySegments`. -/
def playSegments (play : PlayRequest) (options : Options) (segments : List LogSegment) :
    Except BootstrapError BootstrapInfo := do
  let s : ReplayState :=
    { storedOpIds := options.flushedOpIds
      maxCommittedHybridTime := options.maxPersistentHybridTime }
  let toReplay :=
    if options.skipFlushedEntries then
      skipFlushedEntries
        (ReplayState.getLowestOpIdToReplay options.flushedOpIds options.hasIntentsDb)
        options.retryableRequestTimeoutSecs segments
    else segments
  let (lastCommittedOpId, s) ← toReplay.foldlM (playSegment play) (.min0, s)
  let s ← s.updateCommittedFromStored.applyCommittedPendingReplicates play
  let s ← applyLastCommitted play lastCommittedOpId s
  if s.committedOpId.term ≤ s.prevOpId.term ∧ s.committedOpId.index ≤ s.prevOpId.index then
    return {
      orphanedReplicates := s.pendingReplicates.map (·.replicate)
      lastId := s.prevOpId
      lastCommittedId := s.committedOpId
      lastReplicated := s.maxCommittedHybridTime
      replayed := s.replayed
      retryableRequests := s.retryableRequests }
  else .error (.walFilesMissing s.prevOpId s.committedOpId)

end TabletBootstrap
