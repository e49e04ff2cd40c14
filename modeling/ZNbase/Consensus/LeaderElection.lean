import ZNbase.Consensus.LeaderLease
import ZNbase.Consensus.PeerMessageQueue

/-!
# Leader elections

`VoteCounter` and `LeaderElection` of `consensus/leader_election.cc`.

- An election sends one `RequestVote` call to every other voter. `replies` are the responses that
  the voters have sent, whether or not they have arrived.
- `callbackPending` says that the election is decided and its callback has not run.
- A warning or a `DFATAL` line is what it is in a release build, a log line.
-/

/-- `ElectionVote` without its unknown value. -/
inductive ElectionVote
  | granted
  | denied
  deriving DecidableEq

/-- `VoteCounter`. The two counters of the source count the entries of `votes`. -/
structure VoteCounter (ι : Type*) where
  numVoters : ℕ
  majoritySize : ℕ
  votes : List (ι × ElectionVote) := []
  deriving DecidableEq

namespace VoteCounter

variable {ι : Type*} [DecidableEq ι]

variable (c : VoteCounter ι)

def yesVotes : ℕ := c.votes.countP fun v => v.2 = .granted

def noVotes : ℕ := c.votes.countP fun v => v.2 = .denied

/-- `RegisterVote`. A repeated vote, a changed vote, and a vote of one voter too many are not
counted. -/
def registerVote (voter : ι) (vote : ElectionVote) : VoteCounter ι :=
  if voter ∈ c.votes.map (·.1) then c
  else if c.yesVotes + c.noVotes = c.numVoters then c
  else { c with votes := c.votes ++ [(voter, vote)] }

/-- `GetDecision`; `none` is the unknown decision. -/
def getDecision : Option ElectionVote :=
  if c.majoritySize ≤ c.yesVotes then some .granted
  else if c.numVoters - c.majoritySize < c.noVotes then some .denied
  else none

end VoteCounter

/-- `LeaderElectionData`: why an election is started. -/
structure LeaderElectionData where
  ignoreLiveLeader : Bool := false
  pendingCommit : Bool := false
  /-- `must_be_committed_opid`, if it is initialized. -/
  mustBeCommittedOpId : Option OpId := none
  deriving DecidableEq

/-- A `LeaderElection`, with its result. -/
structure LeaderElection (ι : Type*) where
  request : VoteRequest ι
  data : LeaderElectionData := {}
  counter : VoteCounter ι
  decision : Option ElectionVote := none
  higherTerm : Option ℕ := none
  oldLeaderLease : CoarseTimeLease ι := CoarseTimeLease.none
  oldLeaderHtLease : PhysicalComponentLease ι := PhysicalComponentLease.none
  callbackPending : Bool := false
  /-- The responses the voters have sent. -/
  replies : ι → Option (VoteResponse ι) := fun _ => none
  /-- The calls that have returned to the candidate. -/
  returned : ι → Bool := fun _ => false

namespace LeaderElection

variable {ι : Type*} [DecidableEq ι]

variable (e : LeaderElection ι)

/-- `election_term`. -/
def electionTerm : ℕ := e.request.candidateTerm

/-- `consensus_term`: a pre-election does not advance the term of the candidate. -/
def consensusTerm : ℕ :=
  if e.request.preelection then e.request.candidateTerm - 1 else e.request.candidateTerm

/-- `CheckForDecision`: once there is a result, the callback is submitted. -/
def checkForDecision : LeaderElection ι :=
  if e.decision = none then
    match e.counter.getDecision with
    | some d => { e with decision := some d, callbackPending := true }
    | none => e
  else e

variable (voter : ι)

/-- `RecordVoteUnlocked`. -/
def recordVote (vote : ElectionVote) : LeaderElection ι :=
  { e with counter := e.counter.registerVote voter vote }

/-- `HandleVoteGrantedUnlocked`. -/
def handleVoteGranted (r : VoteResponse ι)
    (now : CoarseTimePoint) : LeaderElection ι :=
  recordVote
    { e with
      oldLeaderLease :=
        match r.remainingLeaderLeaseDurationMs with
        | some ms => e.oldLeaderLease.tryUpdate ⟨r.leaderLeaseUuid, now + ms * nsPerMs⟩
        | none => e.oldLeaderLease
      oldLeaderHtLease :=
        match r.leaderHtLeaseExpiration with
        | some expiration => e.oldLeaderHtLease.tryUpdate ⟨r.leaderHtLeaseUuid, expiration⟩
        | none => e.oldLeaderHtLease }
    voter .granted

/-- `HandleVoteDeniedUnlocked`: a higher term ends the election. -/
def handleVoteDenied (r : VoteResponse ι) :
    LeaderElection ι :=
  if e.consensusTerm < r.responderTerm then
    { e with
      decision := some .denied
      higherTerm := some r.responderTerm
      callbackPending := true }
  else e.recordVote voter .denied

/-- Counts the response of a voter. `none` is a call that failed. -/
def countReply (r : Option (VoteResponse ι))
    (now : CoarseTimePoint) : LeaderElection ι :=
  match r with
  | none => e.recordVote voter .denied
  | some r =>
    if e.request.preelection ∧ ¬r.preelection then e.handleVoteDenied voter r
    else if r.voteGranted then e.handleVoteGranted voter r now
    else e.handleVoteDenied voter r

/-- `VoteResponseRpcCallback`. An election that is decided does not look at the response. -/
def voteResponseRpcCallback (r : Option (VoteResponse ι))
    (now : CoarseTimePoint) : LeaderElection ι :=
  let e := { e with returned := Function.update e.returned voter true }
  if e.decision = none then (e.countReply voter r now).checkForDecision else e

end LeaderElection
