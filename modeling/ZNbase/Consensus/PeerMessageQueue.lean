import ZNbase.Consensus.LogCache
import ZNbase.Lib.NthElement

/-!
# The peer message queue

`PeerMessageQueue` of `consensus/consensus_queue.cc`: what a leader knows about the other
replicas, the requests it sends them, and the watermarks it computes from their responses.

- `peers` is `peers_map_`. The entry of the local replica is made when the queue is and stays.
- The voters of the active config are a list `voters`, which does not change. Every peer is one of
  them, so `member_type` is left out.
- `std::nth_element` leaves any one of several operation ids with the same index at the place that
  is read. The argument `tie` says which.
- Notifications of the observer run one after the other on `raft_pool_observers_token_`. They are
  queued in `notifications` in the order of their submission.
- Remote bootstrap, the eviction of failed followers, the watermarks of applied operations and of
  SST files, and metrics are left out. The eviction from the log cache at the end of
  `ResponseFromPeer` is `evictThroughOp`, taken separately.
-/

open CoarseTimePoint

/-- The flags that the modelled functions read. -/
structure RaftFlags where
  leaderLeaseDurationMs : ℕ := 2000
  htLeaseDurationMs : ℕ := 2000
  consensusMaxBatchSizeBytes : ℤ := 4 * 1024 * 1024
  enableConsensusExponentialBackoff : Bool := true
  enableLeaseRevocation : Bool := true
  minimumElectionTimeoutMs : ℕ := 3000
  deriving DecidableEq

/-- `FollowerWatermark`: the value last sent to a follower, and the one its last successful
response was for. -/
structure FollowerWatermark (α : Type*) where
  lastSent : α
  lastReceived : α
  deriving DecidableEq

namespace FollowerWatermark

variable {α : Type*}

/-- Both values are the initial one. -/
def reset (initial : α) : FollowerWatermark α := ⟨initial, initial⟩

/-- The follower has processed the last request. -/
def onReplyFromFollower (w : FollowerWatermark α) : FollowerWatermark α :=
  { w with lastReceived := w.lastSent }

end FollowerWatermark

/-- `TrackedPeer`. -/
structure TrackedPeer where
  isNew : Bool := true
  nextIndex : ℕ
  /-- `none` is the value -1: no request is outstanding. -/
  lastNumMessagesSent : Option ℕ := none
  lastReceived : OpId := OpId.min0
  lastKnownCommittedIdx : ℕ := 0
  isLastExchangeSuccessful : Bool := false
  leaderLeaseExpiration : FollowerWatermark CoarseTimePoint := .reset epoch
  leaderHtLeaseExpiration : FollowerWatermark MicrosTime := .reset 0
  deriving DecidableEq

namespace TrackedPeer

def resetLeaderLeases (p : TrackedPeer) : TrackedPeer :=
  { p with
    leaderLeaseExpiration := .reset epoch
    leaderHtLeaseExpiration := .reset 0 }

def resetLastRequest (p : TrackedPeer) : TrackedPeer :=
  { p with lastNumMessagesSent := none }

end TrackedPeer

/-- `MajorityReplicatedData`. -/
structure MajorityReplicatedData where
  opId : OpId
  leaderLeaseExpiration : CoarseTimePoint
  htLeaseExpiration : MicrosTime
  deriving DecidableEq

/-- A notification on its way to the queue's observer. -/
inductive Notification
  | majorityReplOpChange (data : MajorityReplicatedData)
  | termChange (term : ℕ)
  deriving DecidableEq

/-- `PeerMessageQueue::Mode`. -/
inductive QueueMode
  | leader
  | nonLeader
  deriving DecidableEq

/-- The state of a `PeerMessageQueue`. -/
structure PeerMessageQueue (ι : Type*) where
  mode : QueueMode := .nonLeader
  currentTerm : ℕ := 0
  lastAppended : OpId
  committedOpId : OpId := OpId.min0
  majorityReplicatedOpId : OpId := OpId.min0
  peers : ι → Option TrackedPeer
  logCache : LogCache
  observerRegistered : Bool := false
  notifications : List Notification := []

/-- `MajoritySize` of a config with this many voters. -/
def majoritySize (numVoters : ℕ) : ℕ := numVoters / 2 + 1

namespace PeerMessageQueue

variable {ι : Type*} [DecidableEq ι]

variable (q : PeerMessageQueue ι)

/-- Replaces what is known about a peer. -/
def setPeer (uuid : ι) (p : TrackedPeer) : PeerMessageQueue ι :=
  { q with peers := Function.update q.peers uuid (some p) }

/-! ## Modes and peers -/

/-- `TrackPeer`. -/
def trackPeer (uuid : ι) : PeerMessageQueue ι :=
  q.setPeer uuid { nextIndex := q.lastAppended.index + 1 }

variable (self : ι)

/-- `Init` of a new queue of the replica `self`. -/
def init (lastLocallyReplicated : OpId) : PeerMessageQueue ι :=
  trackPeer
    { lastAppended := lastLocallyReplicated
      peers := fun _ => none
      logCache := LogCache.init lastLocallyReplicated }
    self

/-- `UntrackPeer`, for every peer but `self`: what closing the peers does to the queue. -/
def untrackRemotePeers : PeerMessageQueue ι :=
  { q with peers := fun uuid => if uuid = self then q.peers uuid else none }

/-- `TrackPeer`, for every peer of the config that is not tracked. -/
def trackRemotePeers (voters : List ι) : PeerMessageQueue ι :=
  { q with
    peers := fun uuid =>
      if uuid ∈ voters ∧ (q.peers uuid).isNone then
        some { nextIndex := q.lastAppended.index + 1 }
      else q.peers uuid }

/-- `SetLeaderMode`. -/
def setLeaderMode (committedOpId : OpId) (currentTerm : ℕ) :
    PeerMessageQueue ι :=
  { q with
    mode := .leader
    currentTerm := currentTerm
    committedOpId := committedOpId
    majorityReplicatedOpId := committedOpId
    peers := fun uuid => (q.peers uuid).map TrackedPeer.resetLeaderLeases }

/-- `SetNonLeaderMode`. -/
def setNonLeaderMode : PeerMessageQueue ι :=
  { q with mode := .nonLeader }

/-- `AppendOperations`, with the log the operations are submitted to. -/
def appendOperations (log : Log) (msgs : List ReplicateMsg)
    (committedOpId : OpId) : Option (PeerMessageQueue ι × Log) :=
  let lastId := (msgs.getLast?.map (·.id)).getD q.lastAppended
  (q.logCache.appendOperations msgs).map fun (cache, lastIdxInBatch) =>
    ({ q with
        logCache := cache
        currentTerm := if msgs = [] then q.currentTerm else max q.currentTerm lastId.term
        lastAppended := lastId },
      log.asyncAppendReplicates msgs committedOpId ⟨lastIdxInBatch, lastId⟩)

/-- The end of `NotifyObserversOfMajorityReplOpChangeTask`. -/
def raiseCommitted (newCommittedOpId : OpId) : PeerMessageQueue ι :=
  if q.committedOpId.index < newCommittedOpId.index then
    { q with committedOpId := newCommittedOpId }
  else q

/-! ## Watermarks -/

/-- The values of the voters whose last exchange was successful. -/
def responsiveValues {α : Type*} (q : PeerMessageQueue ι) (voters : List ι)
    (extract : TrackedPeer → α) : List α :=
  voters.filterMap fun uuid =>
    match q.peers uuid with
    | some p => if p.isLastExchangeSuccessful then some (extract p) else none
    | none => none

/-- `OpIdWatermark`. The comparison is by index only. -/
def opIdWatermark (voters : List ι) (tie : ℕ) : OpId :=
  let required := majoritySize voters.length
  let watermarks := q.responsiveValues voters (·.lastReceived)
  if watermarks.length < required then OpId.min0
  else
    match nthElement (watermarks.map (·.index)) (watermarks.length - required) with
    | none => OpId.min0
    | some index =>
      let candidates := watermarks.filter fun id => id.index = index
      candidates.getD (tie % candidates.length) OpId.min0

/-- `GetWatermark` of a policy that takes the local replica to have replicated everything. -/
def leaseWatermark {α : Type*} [LinearOrder α] (q : PeerMessageQueue ι) (self : ι)
    (voters : List ι) (notEnough infinite : α) (extract : TrackedPeer → α) : α :=
  let required := majoritySize voters.length
  if required = 1 then infinite
  else
    let watermarks := q.responsiveValues (voters.filter fun uuid => uuid ≠ self) extract
    let numResponsivePeers := watermarks.length + 1
    if numResponsivePeers < required then notEnough
    else (nthElement watermarks (numResponsivePeers - required)).getD notEnough

/-- `LeaderLeaseExpirationWatermark`. -/
def leaderLeaseExpirationWatermark (voters : List ι) :
    CoarseTimePoint :=
  q.leaseWatermark self voters min max fun p =>
    let leaseExp := p.leaderLeaseExpiration.lastReceived
    if leaseExp ≠ epoch then leaseExp else min

/-- `HybridTimeLeaseExpirationWatermark`. -/
def hybridTimeLeaseExpirationWatermark (voters : List ι) :
    MicrosTime :=
  q.leaseWatermark self voters 0 (HybridTime.getPhysicalValueMicros HybridTime.kMax) fun p =>
    p.leaderHtLeaseExpiration.lastReceived

/-- `PeerAcceptedOurLease`. -/
def peerAcceptedOurLease (uuid : ι) : Bool :=
  match q.peers uuid with
  | some p => p.leaderLeaseExpiration.lastReceived ≠ epoch
  | none => false

/-! ## Requests -/

/-- `GetNumMessagesToSendWithBackoff`. -/
def getNumMessagesToSendWithBackoff (lastNumMessagesSent : ℕ) : ℕ := lastNumMessagesSent / 2 - 1

variable (flags : RaftFlags)

/-- How many operations the next request may have; `none` is `kSendUnboundedLogOps`. -/
def numLogOpsToSend (p : TrackedPeer) : Option ℕ :=
  if flags.enableConsensusExponentialBackoff then
    p.lastNumMessagesSent.map getNumMessagesToSendWithBackoff
  else none

/-- The peer once a request to it has been prepared, before the log is read: the lease that goes
with the request is remembered. A new peer gets none. -/
def preparePeer (p : TrackedPeer) (now : CoarseTimePoint)
    (nowHt : HybridTime) : TrackedPeer :=
  if p.isNew then p.resetLeaderLeases
  else
    { p with
      leaderLeaseExpiration :=
        { p.leaderLeaseExpiration with
          lastSent := now + flags.leaderLeaseDurationMs * nsPerMs - 2 * nsPerMs }
      leaderHtLeaseExpiration :=
        { p.leaderHtLeaseExpiration with
          lastSent := HybridTime.getPhysicalValueMicros nowHt + flags.htLeaseDurationMs * 1000 } }

/-- The request before the operations are filled in. -/
def baseRequest (self : ι) (p : TrackedPeer)
    (nowHt : HybridTime) : ConsensusRequest ι where
  callerUuid := self
  callerTerm := q.currentTerm
  precedingId := if p.isNew then q.lastAppended else p.lastReceived
  committedOpId := q.committedOpId
  leaderLeaseDurationMs := if p.isNew then none else some flags.leaderLeaseDurationMs
  htLeaseExpiration :=
    if p.isNew then none
    else some (HybridTime.getPhysicalValueMicros nowHt + flags.htLeaseDurationMs * 1000)
  propagatedHybridTime := some nowHt

/-- Lowers the committed id of a request to the last operation the follower will know. -/
def capCommitted (r : ConsensusRequest ι) : ConsensusRequest ι :=
  let maxAllowed := (r.ops.getLast?.map (·.id)).getD r.precedingId
  if maxAllowed.index < r.committedOpId.index then { r with committedOpId := maxAllowed } else r

/-- `RequestForPeer`: the request, and the queue after it. The readings of the clocks and the safe
time of the tablet are arguments. -/
def requestForPeer (self uuid : ι) (log : Log)
    (now : CoarseTimePoint) (nowHt : HybridTime) (safeTime : Option HybridTime) :
    Except ReadStatus (ConsensusRequest ι × PeerMessageQueue ι) :=
  match q.mode, q.peers uuid with
  | .leader, some p =>
    let p' := preparePeer flags p now nowHt
    let request := q.baseRequest flags self p nowHt
    let num := numLogOpsToSend flags p
    if p.isNew ∨ num = some 0 then
      .ok (capCommitted request, q.setPeer uuid p')
    else
      let previouslySentIndex := p.nextIndex - 1
      let toIndex := match num with
        | none => 0
        | some n => previouslySentIndex + n
      match q.logCache.readOps log previouslySentIndex toIndex
          flags.consensusMaxBatchSizeBytes with
      | .error e => .error e
      | .ok result =>
        let request :=
          { request with
            precedingId := result.precedingOp
            ops := result.messages
            propagatedSafeTime :=
              if ¬result.haveMoreMessages ∧ num = none then safeTime else none }
        .ok (capCommitted request,
          q.setPeer uuid { p' with lastNumMessagesSent := some result.messages.length })
  | _, _ => .error .notFound

omit [DecidableEq ι] in
/-- A request to a peer changes nothing of what the peer has received. -/
lemma preparePeer_eq (flags : RaftFlags) (p : TrackedPeer) (now : CoarseTimePoint)
    (nowHt : HybridTime) :
    (preparePeer flags p now nowHt).lastReceived = p.lastReceived ∧
      (preparePeer flags p now nowHt).isLastExchangeSuccessful = p.isLastExchangeSuccessful := by
  simp only [preparePeer]
  split_ifs <;> exact ⟨rfl, rfl⟩

omit [DecidableEq ι] in
/-- The committed id of a request is all that is lowered. -/
lemma capCommitted_spec (r : ConsensusRequest ι) :
    ∃ committedOpId, capCommitted r = { r with committedOpId } ∧
      committedOpId.index ≤ r.committedOpId.index := by
  simp only [capCommitted]
  split_ifs with hlow
  · exact ⟨_, rfl, hlow.le⟩
  · exact ⟨_, rfl, le_rfl⟩

/-- Where the operations of a request to the peer `p`, and the one before them, come from. -/
inductive Content (q : PeerMessageQueue ι) (log : Log) (p : TrackedPeer)
    (request : ConsensusRequest ι) : Prop
  /-- A new peer is asked what it has. -/
  | isNew (hnew : p.isNew = true) (hops : request.ops = [])
      (hpreceding : request.precedingId = q.lastAppended)
  /-- The requests to a peer that does not answer have become empty. -/
  | backoff (hnew : p.isNew = false) (hsent : p.lastNumMessagesSent ≠ none)
      (hops : request.ops = []) (hpreceding : request.precedingId = p.lastReceived)
  /-- The operations are read. -/
  | read {toIndex : ℕ} {maxSize : ℤ} {result : ReadOpsResult} (hnew : p.isNew = false)
      (hread : q.logCache.readOps log (p.nextIndex - 1) toIndex maxSize = .ok result)
      (hops : request.ops = result.messages) (hpreceding : request.precedingId = result.precedingOp)

/-- What a request of the replica `leader` to the peer `uuid` has, and what is left of the queue. -/
structure Requested (q : PeerMessageQueue ι) (leader uuid : ι) (log : Log) (p : TrackedPeer)
    (request : ConsensusRequest ι) (q' : PeerMessageQueue ι) : Prop where
  mode : q.mode = .leader
  peer : q.peers uuid = some p
  caller : request.callerUuid = leader ∧ request.callerTerm = q.currentTerm
  committed : request.committedOpId.index ≤ q.committedOpId.index
  content : q.Content log p request
  queue : ∃ p', q' = q.setPeer uuid p' ∧ p'.lastReceived = p.lastReceived ∧
    p'.isLastExchangeSuccessful = p.isLastExchangeSuccessful

lemma requestForPeer_spec {q q' : PeerMessageQueue ι} {flags : RaftFlags} {self uuid : ι}
    {log : Log} {now : CoarseTimePoint} {nowHt : HybridTime} {safeTime : Option HybridTime}
    {request : ConsensusRequest ι}
    (h : q.requestForPeer flags self uuid log now nowHt safeTime = .ok (request, q')) :
    ∃ p, q.Requested self uuid log p request q' := by
  simp only [requestForPeer] at h
  split at h
  case h_2 => cases h
  case h_1 p hmode hp =>
    have hpeer := preparePeer_eq flags p now nowHt
    split_ifs at h with hempty
    · -- a request without operations, for a new peer or one that does not answer
      obtain ⟨committed, hcap, hle⟩ := capCommitted_spec (q.baseRequest flags self p nowHt)
      rw [hcap] at h
      cases h
      refine ⟨p, hmode, hp, ⟨rfl, rfl⟩, hle, ?_, _, rfl, hpeer⟩
      cases hnew : p.isNew with
      | true => exact .isNew hnew rfl (if_pos hnew)
      | false =>
        refine .backoff hnew ?_ rfl (if_neg (by simp [hnew]))
        intro hsent
        simp [hnew, numLogOpsToSend, hsent] at hempty
    · split at h
      · cases h
      -- a request with what was read
      case h_2 result hread =>
        obtain ⟨committed, hcap, hle⟩ := capCommitted_spec
          { q.baseRequest flags self p nowHt with
            precedingId := result.precedingOp
            ops := result.messages
            propagatedSafeTime := if ¬result.haveMoreMessages ∧ numLogOpsToSend flags p = none
              then safeTime else none }
        rw [hcap] at h
        cases h
        exact ⟨p, hmode, hp, ⟨rfl, rfl⟩, hle,
          .read (by simpa using fun hnew => hempty (.inl hnew)) hread rfl rfl, _, rfl, hpeer⟩

/-- The queue after a call of `RequestForPeer` that failed: the lease sent is remembered all the
same. -/
def requestForPeerFailed (uuid : ι)
    (now : CoarseTimePoint) (nowHt : HybridTime) : PeerMessageQueue ι :=
  match q.mode, q.peers uuid with
  | .leader, some p => q.setPeer uuid (preparePeer flags p now nowHt)
  | _, _ => q

/-- `RequestWasNotSent`. -/
def requestWasNotSent (uuid : ι) : PeerMessageQueue ι :=
  match q.peers uuid with
  | some p => q.setPeer uuid p.resetLastRequest
  | none => q

/-! ## Responses -/

/-- `IsOpInLog`. -/
def isOpInLog (log : Log) (desiredOp : OpId) : Bool :=
  match q.logCache.lookupOpId log desiredOp.index with
  | .ok id => desiredOp = id
  | .error _ => false

/-- What `ResponseFromPeer` takes over from the status of a response. -/
def updateFromStatus (log : Log) (p : TrackedPeer)
    (status : ConsensusStatus) : TrackedPeer :=
  let p :=
    { p.resetLastRequest with isNew := false, lastKnownCommittedIdx := status.lastCommittedIdx }
  if q.isOpInLog log status.lastReceived then
    { p with lastReceived := status.lastReceived, nextIndex := status.lastReceived.index + 1 }
  else if status.lastReceivedCurrentLeader ≠ OpId.min0 then
    { p with
      lastReceived := status.lastReceivedCurrentLeader
      nextIndex := status.lastReceivedCurrentLeader.index + 1 }
  else { p with nextIndex := status.lastCommittedIdx + 1 }

/-- The part of `ResponseFromPeer` that a leader's queue does once the peer is updated. -/
def advanceWatermarks (voters : List ι) (uuid : ι)
    (tie : ℕ) : PeerMessageQueue ι :=
  let watermark := q.opIdWatermark voters tie
  let q :=
    if watermark ≠ OpId.min0 then { q with majorityReplicatedOpId := watermark } else q
  let q :=
    match q.peers uuid with
    | some p =>
      q.setPeer uuid
        { p with
          leaderLeaseExpiration := p.leaderLeaseExpiration.onReplyFromFollower
          leaderHtLeaseExpiration := p.leaderHtLeaseExpiration.onReplyFromFollower }
    | none => q
  { q with
    notifications := q.notifications ++
      [.majorityReplOpChange
        { opId := q.majorityReplicatedOpId
          leaderLeaseExpiration := q.leaderLeaseExpirationWatermark self voters
          htLeaseExpiration := q.hybridTimeLeaseExpirationWatermark self voters }] }

/-- `ResponseFromPeer`. `none` is a failed `CHECK` or a fatal log line. The response of the local
replica has no term. -/
def responseFromPeer (voters : List ι) (log : Log) (uuid : ι)
    (responderTerm : Option ℕ) (status : ConsensusStatus) (tie : ℕ) :
    Option (PeerMessageQueue ι) :=
  match q.peers uuid with
  | none => some q
  | some p =>
    let p := q.updateFromStatus log p status
    match status.error with
    | some .precedingEntryDidntMatch =>
      some (q.setPeer uuid { p with isLastExchangeSuccessful := false })
    | some .invalidTerm =>
      let q := q.setPeer uuid { p with isLastExchangeSuccessful := false }
      some { q with
        notifications := q.notifications ++ [.termChange (responderTerm.getD 0)] }
    | some _ => none
    | none =>
      if ∀ term ∈ responderTerm, term ≤ q.currentTerm then
        let q := q.setPeer uuid { p with isLastExchangeSuccessful := true }
        match q.mode with
        | .leader => some (q.advanceWatermarks self voters uuid tie)
        | .nonLeader => some q
      else none

/-- `LocalPeerAppendFinished`, the callback of an append. -/
def localPeerAppendFinished (voters : List ι) (log : Log)
    (id : OpId) (tie : ℕ) : Option (PeerMessageQueue ι) :=
  let q := if q.lastAppended.index < id.index then { q with lastAppended := id } else q
  match q.mode with
  | .nonLeader => some { q with logCache := q.logCache.evictThroughOp id.index }
  | .leader =>
    q.responseFromPeer self voters log self none
      { lastReceived := id
        lastReceivedCurrentLeader := id
        lastCommittedIdx := q.committedOpId.index }
      tie

/-- The callback of an append that reached the log: `LogCache::LogCallback`, and then
`LocalPeerAppendFinished`. -/
def appendFinished (voters : List ι) (log : Log)
    (c : AppendCallback) (tie : ℕ) : Option (PeerMessageQueue ι) :=
  { q with logCache := q.logCache.logCallback c.lastIdxInBatch }.localPeerAppendFinished self
    voters log c.lastId tie

end PeerMessageQueue
