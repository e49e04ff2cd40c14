import ZNbase.Consensus.LeaderElection
import ZNbase.Consensus.ReplicaState

/-!
# Raft consensus on one replica

`RaftConsensus` of `consensus/raft_consensus.cc`: what a replica does with the requests, responses
and notifications it gets. `RaftConsensus ι` is the state of one replica, with the queue, the log
and the `ReplicaState` it owns.

- Every function runs under the lock of the `ReplicaState`, except for those of the queue and of the
  log. A `BecomeLeaderUnlocked` that has made the queue a leader's queue and has not yet appended
  its `NO_OP` still holds the lock; `noOpPending` says so.
- `none` stands for a failed `CHECK`, a fatal log line, and a wait that is not over.
- Readings of the clocks, the answers of the tablet and of the log, and how many operations could be
  prepared are arguments. `nowHt` is the reading of the hybrid clock; `clock` is the last value that
  the hybrid clock has returned or was advanced to.
- The config is fixed: all replicas of it are voters. The failure detector is left out: an election
  can start at any time. So are the deadlines of a step down, and remote bootstrap.
-/

/-- What all replicas agree on: the flags, and the voters of the tablet's config. -/
structure RaftConfig (ι : Type*) where
  flags : RaftFlags := {}
  voters : List ι
  nodup : voters.Nodup

/-- The state of one replica. -/
structure RaftConsensus (ι : Type*) where
  state : ReplicaState ι := {}
  queue : PeerMessageQueue ι
  log : Log := {}
  withholdVotesUntil : CoarseTimePoint := CoarseTimePoint.min
  clock : HybridTime := HybridTime.kMin
  /-- The replica holds its lock while it becomes leader. -/
  noOpPending : Bool := false
  /-- The last term in which the replica was leader: client operations are bound to it. -/
  boundTerm : Option ℕ := none
  /-- The call that each peer of a leader is waiting for. -/
  performing : ι → Option ℕ := fun _ => none

namespace RaftConsensus

variable {ι : Type*} [DecidableEq ι]

/-- A new replica. -/
def init (self : ι) : RaftConsensus ι where
  queue := PeerMessageQueue.init self OpId.min0

variable (r : RaftConsensus ι)

def isLeader (self : ι) : Bool := r.state.isLeader self

/-- `Update` of the hybrid clock. -/
def updateClock (ht : Option HybridTime) : RaftConsensus ι :=
  { r with clock := max r.clock (ht.getD HybridTime.kMin) }

/-! ## Roles -/

/-- `BecomeReplicaUnlocked`. Closing the peers drops the calls they wait for. -/
def becomeReplica (self : ι) : RaftConsensus ι :=
  { r with
    state := { r.state with leaderUuid := none }
    withholdVotesUntil := CoarseTimePoint.min
    queue :=
      { r.queue with observerRegistered := false }.setNonLeaderMode.untrackRemotePeers self
    performing := fun _ => none }

/-- `HandleTermAdvanceUnlocked`. A term that is not above the current one changes nothing. -/
def handleTermAdvance (self : ι) (newTerm : ℕ) : RaftConsensus ι :=
  if newTerm ≤ r.state.currentTerm then r
  else
    let r := if r.isLeader self then r.becomeReplica self else r
    { r with state := r.state.setCurrentTerm newTerm }

/-- `BecomeLeaderUnlocked` up to the `NO_OP`, with the lease updates of `DoElectionCallback`. -/
def becomeLeader (self : ι) (cfg : RaftConfig ι)
    (lease : CoarseTimeLease ι) (htLease : PhysicalComponentLease ι) : RaftConsensus ι :=
  let state := r.state.updateOldLeaderLeaseExpirationOnNonLeader lease htLease
  { r with
    state := { state with leaderUuid := some self }
    withholdVotesUntil := CoarseTimePoint.max
    queue :=
      ({ r.queue with observerRegistered := true }.setLeaderMode r.state.lastCommittedOpId
        r.state.currentTerm).trackRemotePeers cfg.voters
    boundTerm := some r.state.currentTerm
    noOpPending := true }

/-! ## Appending operations on a leader -/

/-- An operation that is to be replicated: its id is given by the replica. -/
structure NewRound where
  opType : OperationType
  hybridTime : HybridTime
  byteSize : ℕ := 1
  /-- The answer of `RetryableRequests::Register`. -/
  registered : Bool := true
  deriving DecidableEq

/-- Gives the ids of operations back, the last one first. -/
def rollbackIds (s : ReplicaState ι) : List ReplicateMsg → Option (ReplicaState ι)
  | [] => some s
  | msg :: rest => do
    let s ← rollbackIds s rest
    s.cancelPendingOperation msg.id true

/-- The loop of `AppendNewRoundsToQueueUnlocked`: the state after it and the operations to append.
A duplicate is skipped; another error takes all operations of the batch back. -/
def addRounds (cfg : RaftConfig ι) (self : ι) (now : CoarseTimePoint) :
    ReplicaState ι → List ReplicateMsg → List NewRound →
      Option (ReplicaState ι × List ReplicateMsg)
  | s, msgs, [] => some (s, msgs)
  | s, msgs, round :: rest =>
    let (opId, s) := s.newId
    let msg : ReplicateMsg := ⟨opId, round.hybridTime, round.opType, round.byteSize⟩
    match s.addPendingOperation cfg.flags self cfg.voters.length now msg round.registered with
    | .ok s => addRounds cfg self now s (msgs ++ [msg]) rest
    | .error .alreadyPresent => do
      let s ← s.cancelPendingOperation opId false
      addRounds cfg self now s msgs rest
    | .error .leaderHasNoLease => do
      let s ← s.cancelPendingOperation opId false
      let s ← rollbackIds s msgs
      some (s, [])

/-- `AppendNewRoundsToQueueUnlocked`. -/
def appendNewRoundsToQueue (self : ι) (cfg : RaftConfig ι)
    (now : CoarseTimePoint) (rounds : List NewRound) : Option (RaftConsensus ι) := do
  let (state, msgs) ← addRounds cfg self now r.state [] rounds
  match msgs.getLast? with
  | none => some { r with state := state }
  | some last =>
    let (queue, log) ← r.queue.appendOperations r.log msgs state.lastCommittedOpId
    some { r with state := state.updateLastReceivedOpId last.id, queue := queue, log := log }

/-- The rest of `BecomeLeaderUnlocked`: appends the `NO_OP` of the term. -/
def appendNoOp (self : ι) (cfg : RaftConfig ι) (now : CoarseTimePoint)
    (nowHt : HybridTime) : Option (RaftConsensus ι) :=
  { r with noOpPending := false, clock := nowHt }.appendNewRoundsToQueue self cfg now
    [{ opType := .noOp, hybridTime := nowHt }]

/-- `ReplicateBatch`, for operations bound to the current term. -/
def replicateBatch (self : ι) (cfg : RaftConfig ι) (now : CoarseTimePoint)
    (rounds : List NewRound) : Option (RaftConsensus ι) :=
  if r.boundTerm = some r.state.currentTerm then r.appendNewRoundsToQueue self cfg now rounds
  else none

/-! ## Elections -/

/-- `CreateElectionUnlocked`. -/
def createElection (self : ι) (cfg : RaftConfig ι)
    (data : LeaderElectionData) (preelection : Bool) : RaftConsensus ι × LeaderElection ι :=
  let r :=
    if preelection then r
    else
      let r := r.handleTermAdvance self (r.state.currentTerm + 1)
      { r with state := r.state.setVotedForCurrentTerm self }
  let newTerm := if preelection then r.state.currentTerm + 1 else r.state.currentTerm
  let counter : VoteCounter ι :=
    { numVoters := cfg.voters.length, majoritySize := majoritySize cfg.voters.length }
  let election : LeaderElection ι :=
    { request :=
        { candidateUuid := self
          candidateTerm := newTerm
          lastReceived := r.state.lastReceivedOpId
          ignoreLiveLeader := data.ignoreLiveLeader
          preelection := preelection }
      data := data
      counter := counter.registerVote self .granted }
  let r :=
    if preelection then r else { r with state := { r.state with pendingElectionOpId := none } }
  -- `Run` begins with a check that a replica that is alone needs
  (r, election.checkForDecision)

/-- `DoStartElection`. The election is `none` if the replica does not start one. -/
def doStartElection (self : ι) (cfg : RaftConfig ι)
    (data : LeaderElectionData) (preelection : Bool) (ctx : ApplyContext) :
    Option (RaftConsensus ι × Option (LeaderElection ι)) :=
  if r.isLeader self then some (r, none)
  else if data.pendingCommit then do
    let requiredId :=
      data.mustBeCommittedOpId.getD (r.state.pendingElectionOpId.getD OpId.min0)
    -- the operations up to the index are committed, whatever the term of the operation there
    let (_, state) ← r.state.advanceCommittedOpId ctx requiredId false
    let r := { r with state := state }
    if requiredId.index ≤ state.lastCommittedOpId.index then
      let (r, e) := r.createElection self cfg data preelection
      some (r, some e)
    else
      match data.mustBeCommittedOpId with
      | some id => some ({ r with state := { state with pendingElectionOpId := some id } }, none)
      | none => some (r, none)
  else
    let (r, e) := r.createElection self cfg data preelection
    some (r, some e)

/-- `DoElectionCallback` of an election that is decided. A won pre-election starts an election. -/
def doElectionCallback (self : ι) (cfg : RaftConfig ι)
    (e : LeaderElection ι) (ctx : ApplyContext) :
    Option (RaftConsensus ι × Option (LeaderElection ι)) :=
  match e.decision with
  | some .granted =>
    if e.electionTerm ≠ r.state.currentTerm + e.request.preelection.toNat then some (r, none)
    else if e.request.preelection then
      r.doStartElection self cfg e.data false ctx
    else if r.isLeader self then some (r, none)
    else some (r.becomeLeader self cfg e.oldLeaderLease e.oldLeaderHtLease, none)
  | _ => some (r.handleTermAdvance self (e.higherTerm.getD 0), none)

/-! ## Votes -/

variable (request : VoteRequest ι)

/-- `FillVoteResponseVoteGranted`. -/
def voteGranted : VoteResponse ι where
  responderTerm := request.candidateTerm
  voteGranted := true
  preelection := request.preelection

/-- `FillVoteResponseVoteDenied`. -/
def voteDenied (error : ConsensusErrorCode) :
    VoteResponse ι where
  responderTerm := r.state.currentTerm
  voteGranted := false
  preelection := request.preelection
  error := some error

/-- The leases that a voter tells a candidate about. -/
def withOldLeaderLeases (s : ReplicaState ι) (now : CoarseTimePoint) (response : VoteResponse ι) :
    VoteResponse ι × ReplicaState ι :=
  let (remaining, s) := s.remainingOldLeaderLeaseDuration now
  let response :=
    match remaining with
    | some ns =>
      { response with
        remainingLeaderLeaseDurationMs := some (ns / nsPerMs).toNat
        leaderLeaseUuid := s.oldLeaderLease.holderUuid }
    | none => response
  let response :=
    if s.oldLeaderHtLease.expiration ≠ 0 then
      { response with
        leaderHtLeaseExpiration := some s.oldLeaderHtLease.expiration
        leaderHtLeaseUuid := s.oldLeaderHtLease.holderUuid }
    else response
  (response, s)

/-- The end of `RequestVote`: the candidate is compared with the last operation that is synced, and
the vote is cast. -/
def decideVote (now : CoarseTimePoint) :
    RaftConsensus ι × VoteResponse ι :=
  if request.lastReceived < r.log.getLatestEntryOpId then
    (r, r.voteDenied request .lastOpIdTooOld)
  else
    let (response, state) := withOldLeaderLeases r.state now (voteGranted request)
    if request.preelection then ({ r with state := state }, response)
    else
      let state := { state with pendingElectionOpId := none }
      ({ r with state := state.setVotedForCurrentTerm request.candidateUuid }, response)

/-- `RequestVote`. `updateBusy` says that another thread holds the update mutex. -/
def requestVote (self : ι) (request : VoteRequest ι) (now : CoarseTimePoint)
    (updateBusy : Bool) : RaftConsensus ι × VoteResponse ι :=
  if updateBusy then (r, r.voteDenied request .consensusBusy)
  else if some request.candidateUuid ≠ r.state.leaderUuid ∧ ¬request.ignoreLiveLeader ∧
      now < r.withholdVotesUntil then
    (r, r.voteDenied request .leaderIsAlive)
  else if request.candidateTerm < r.state.currentTerm then
    (r, r.voteDenied request .invalidTerm)
  else if request.candidateTerm = r.state.currentTerm ∧ r.state.votedFor.isSome then
    if r.state.votedFor = some request.candidateUuid then (r, voteGranted request)
    else (r, r.voteDenied request .alreadyVoted)
  else
    let r :=
      if r.state.currentTerm < request.candidateTerm ∧ ¬request.preelection then
        r.handleTermAdvance self request.candidateTerm
      else r
    r.decideVote request now

end RaftConsensus
