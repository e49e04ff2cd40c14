import ZNbase.Common.HybridTime
import ZNbase.Common.OpId

/-!
# Consensus messages

The messages of `consensus.proto` that the replicas of a tablet exchange, with the fields the
modelled functions read. `ι` is the type of the replicas' permanent uuids.

- `CoarseTimePoint` is a reading of a monotonic clock, in nanoseconds. `MonoTime`, which is only
  used for `withhold_votes_until_`, is read from the same clock.
- Of an operation's payload only its size on the wire, `byteSize`, is kept.
- The tablet and destination ids, which only route a request, are left out.
-/

/-- A point of the coarse monotonic clock of a server, in nanoseconds. -/
abbrev CoarseTimePoint := ℤ

namespace CoarseTimePoint

/-- `CoarseTimePoint::min()`. -/
def min : CoarseTimePoint := -2 ^ 63

/-- `CoarseTimePoint::max()`. -/
def max : CoarseTimePoint := 2 ^ 63 - 1

/-- The value of `CoarseTimePoint()`. -/
def epoch : CoarseTimePoint := 0

end CoarseTimePoint

/-- Nanoseconds in a millisecond. -/
def nsPerMs : ℤ := 1000000

/-- Microseconds since the epoch, the physical part of a hybrid time. -/
abbrev MicrosTime := ℕ

/-- The examples have three or five replicas. -/
instance neZero_three : NeZero 3 := ⟨by decide⟩

instance neZero_five : NeZero 5 := ⟨by decide⟩

/-- The types of operations that are told apart. -/
inductive OperationType
  | noOp
  | changeConfigOp
  | writeOp
  | otherOp
  deriving DecidableEq

/-- A replicated operation, `ReplicateMsg`. -/
structure ReplicateMsg where
  id : OpId
  hybridTime : HybridTime
  opType : OperationType
  byteSize : ℕ := 1
  deriving DecidableEq

/-- `ConsensusErrorPB::Code`. -/
inductive ConsensusErrorCode
  | invalidTerm
  | lastOpIdTooOld
  | alreadyVoted
  | leaderIsAlive
  | consensusBusy
  | precedingEntryDidntMatch
  | cannotPrepare
  deriving DecidableEq

/-- `ConsensusRequestPB`: what a leader sends to a follower. -/
structure ConsensusRequest (ι : Type*) where
  callerUuid : ι
  callerTerm : ℕ
  precedingId : OpId
  committedOpId : OpId
  ops : List ReplicateMsg := []
  /-- Set when the request carries a leader lease. -/
  leaderLeaseDurationMs : Option ℕ := none
  /-- Set when the request carries a hybrid time leader lease. -/
  htLeaseExpiration : Option MicrosTime := none
  propagatedHybridTime : Option HybridTime := none
  propagatedSafeTime : Option HybridTime := none
  deriving DecidableEq

/-- `ConsensusStatusPB`: what a follower tells about its log. -/
structure ConsensusStatus where
  lastReceived : OpId
  lastReceivedCurrentLeader : OpId
  lastCommittedIdx : ℕ
  error : Option ConsensusErrorCode := none
  deriving DecidableEq

/-- `ConsensusResponsePB`. -/
structure ConsensusResponse where
  responderTerm : ℕ
  status : ConsensusStatus
  propagatedHybridTime : Option HybridTime := none
  deriving DecidableEq

/-- `VoteRequestPB`. -/
structure VoteRequest (ι : Type*) where
  candidateUuid : ι
  candidateTerm : ℕ
  /-- `candidate_status.last_received`. -/
  lastReceived : OpId
  ignoreLiveLeader : Bool := false
  preelection : Bool := false
  deriving DecidableEq

/-- `VoteResponsePB`. -/
structure VoteResponse (ι : Type*) where
  responderTerm : ℕ
  voteGranted : Bool
  preelection : Bool := false
  error : Option ConsensusErrorCode := none
  remainingLeaderLeaseDurationMs : Option ℕ := none
  leaderLeaseUuid : Option ι := none
  leaderHtLeaseExpiration : Option MicrosTime := none
  leaderHtLeaseUuid : Option ι := none
  deriving DecidableEq

/-- `RunLeaderElectionRequestPB`: a leader that steps down asks another replica to take over. The
originator, who is told when the election is lost, is left out. -/
structure RunLeaderElectionRequest where
  committedIndex : Option OpId := none
  deriving DecidableEq
