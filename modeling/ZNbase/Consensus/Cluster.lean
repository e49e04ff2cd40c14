import ZNbase.Consensus.UpdateReplica
import ZNbase.Lib.Run

/-!
# The replicas of a tablet

All replicas of a tablet and the calls between them. A step is one thing that one replica does, and
any interleaving of steps is a run.

- A call is delivered at most once, after any time. A call or its reply can be lost: the step that
  delivers it is not taken, and the caller can see the call fail at any time.
- `updateRpcs` are the `UpdateConsensus` calls and `runElectionRpcs` the `RunLeaderElection` calls,
  by an id that the step that sends a call chooses among the unused ones. The `RequestVote` calls of
  an election are part of the election.
- `time` is common to all replicas. The monotonic clock of a replica differs from it by a constant.
  The hybrid clock of a replica returns any value above its last one.
- `crash` stops a replica and starts it again. Of its state only the consensus metadata on disk is
  the same afterwards. A replica that stops in the middle of casting its own vote or a vote for
  another may have flushed the new term only.
-/

open Function RaftConsensus

/-- The replicas' config, and how far their monotonic clocks are from the common time. -/
structure ClusterConfig (ι : Type) extends RaftConfig ι where
  clockOffset : ι → ℤ := fun _ => 0

/-- Where an `UpdateConsensus` call is. -/
inductive UpdateStatus
  | sent
  | waiting (result : UpdateReplicaResult)
  | returned (response : ConsensusResponse)
  | lost
  deriving DecidableEq

/-- An `UpdateConsensus` call. -/
structure UpdateRpc (ι : Type) where
  dest : ι
  request : ConsensusRequest ι
  status : UpdateStatus := .sent
  deriving DecidableEq

/-- A `RunLeaderElection` call. -/
structure RunElectionRpc (ι : Type) where
  dest : ι
  request : RunLeaderElectionRequest
  /-- The term of the caller. It is not part of the request. -/
  callerTerm : ℕ
  delivered : Bool := false
  deriving DecidableEq

/-- All replicas, and the calls between them. -/
structure Cluster (ι : Type) where
  time : ℤ := 0
  node : ι → RaftConsensus ι
  elections : ℕ → Option (LeaderElection ι) := fun _ => none
  updateRpcs : ℕ → Option (UpdateRpc ι) := fun _ => none
  runElectionRpcs : ℕ → Option (RunElectionRpc ι) := fun _ => none

/-- What a replica was doing when it stopped. -/
inductive CrashPoint
  | idle
  | startingElection
  | voting (election : ℕ)
  deriving DecidableEq

/-- The steps. An argument `n` is the replica that takes the step. -/
inductive ClusterEvent (ι : Type)
  | tick (d : ℕ)
  | startElection (n : ι) (election : ℕ) (ignoreLiveLeader preelection : Bool)
  | handleVoteRequest (election : ℕ) (voter : ι) (updateBusy : Bool)
  | handleVoteReply (election : ℕ) (voter : ι) (failed : Bool)
  | electionCallback (election newElection : ℕ) (ctx : ApplyContext)
  | appendNoOp (n : ι) (nowHt : HybridTime)
  | replicate (n : ι) (rounds : List NewRound)
  | sendUpdate (n peer : ι) (rpc : ℕ) (nowHt : HybridTime) (safeTime : Option HybridTime)
  | updateNotSent (n peer : ι) (nowHt : HybridTime) (safeTime : Option HybridTime)
  | handleUpdate (rpc numPrepared : ℕ) (earlyCommit markCommitted : ApplyContext) (tie : ℕ)
  | updateReturns (rpc : ℕ) (nowHt : HybridTime) (newElection : ℕ) (preelection : Bool)
      (ctx : ApplyContext)
  | handleUpdateReply (rpc tie : ℕ)
  | updateFails (rpc : ℕ)
  | runNotification (n : ι) (ctx : ApplyContext)
  | processBatch (n : ι)
  | groupWork (n : ι)
  | rollOver (n : ι)
  | runCallback (n : ι) (tie : ℕ)
  | evict (n : ι) (index : ℕ)
  | stepDown (n : ι) (newLeader : Option ι) (rpc : ℕ)
  | handleRunElection (rpc newElection : ℕ) (preelection : Bool) (ctx : ApplyContext)
  | crash (n : ι) (point : CrashPoint) (recovered : RaftConsensus ι)

namespace Cluster

variable {ι : Type} [DecidableEq ι]

/-- New replicas. -/
def init : Cluster ι where
  node := RaftConsensus.init

variable (s : Cluster ι)

variable (cfg : ClusterConfig ι)

/-- The monotonic clock of a replica. -/
def now (n : ι) : CoarseTimePoint :=
  s.time + cfg.clockOffset n

/-! ## Replacing parts of the state -/

variable (n : ι)

def setNode (r : RaftConsensus ι) : Cluster ι :=
  { s with node := update s.node n r }

variable (id : ℕ)

def setElection (e : LeaderElection ι) : Cluster ι :=
  { s with elections := update s.elections id (some e) }

def setUpdateRpc (c : UpdateRpc ι) : Cluster ι :=
  { s with updateRpcs := update s.updateRpcs id (some c) }

def setRunElectionRpc (c : RunElectionRpc ι) : Cluster ι :=
  { s with runElectionRpcs := update s.runElectionRpcs id (some c) }

lemma setNode_self : s.setNode n (s.node n) = s := by
  simp [setNode]

lemma setNode_setNode (r r' : RaftConsensus ι) : (s.setNode n r).setNode n r' = s.setNode n r' := by
  simp [setNode]

@[simp] lemma setNode_node_self (r : RaftConsensus ι) : (s.setNode n r).node n = r := by
  simp [setNode]

lemma setNode_node_of_ne {n m : ι} (h : m ≠ n) (r : RaftConsensus ι) :
    (s.setNode n r).node m = s.node m := by
  simp [setNode, h]

section Lookup

omit [DecidableEq ι]

variable (s : Cluster ι) {id id' : ℕ}

@[simp] lemma setElection_elections_self (id : ℕ) (e : LeaderElection ι) :
    (s.setElection id e).elections id = some e := by
  simp [setElection]

lemma setElection_elections_of_ne (h : id' ≠ id) (e : LeaderElection ι) :
    (s.setElection id e).elections id' = s.elections id' := by
  simp [setElection, h]

lemma setUpdateRpc_updateRpcs_self (id : ℕ) (c : UpdateRpc ι) :
    (s.setUpdateRpc id c).updateRpcs id = some c := by
  simp [setUpdateRpc]

lemma setUpdateRpc_updateRpcs_of_ne (h : id' ≠ id) (c : UpdateRpc ι) :
    (s.setUpdateRpc id c).updateRpcs id' = s.updateRpcs id' := by
  simp [setUpdateRpc, h]

variable {s}

/-- An election is the one that was set, or one that was there. -/
lemma elections_of_setElection {e e' : LeaderElection ι}
    (h : (s.setElection id e).elections id' = some e') :
    (id' = id ∧ e' = e) ∨ (id' ≠ id ∧ s.elections id' = some e') := by
  simp only [setElection, update_eq_some_iff] at h
  rwa [eq_comm (a := e')]

/-- An election under an id that was not used leaves the others. -/
lemma elections_setElection_of_none {e e' : LeaderElection ι} (hid : s.elections id = none)
    (h : s.elections id' = some e') : (s.setElection id e).elections id' = some e' := by
  have hne : id' ≠ id := by
    rintro rfl
    rw [hid] at h
    cases h
  rw [setElection_elections_of_ne _ hne, h]

end Lookup

/-- Replaces a replica, and adds the election it has started under an id that is not used. -/
def setNodeWithElection
    (r : RaftConsensus ι × Option (LeaderElection ι)) : Option (Cluster ι) :=
  match r.2 with
  | none => some (s.setNode n r.1)
  | some e => if s.elections id = none then some ((s.setNode n r.1).setElection id e) else none

/-! ## Elections -/

def startElection (n : ι) (id : ℕ)
    (data : LeaderElectionData) (preelection : Bool) (ctx : ApplyContext) : Option (Cluster ι) :=
  if n ∈ cfg.voters ∧ ¬(s.node n).noOpPending then
    match (s.node n).doStartElection n cfg.toRaftConfig data preelection ctx with
    | none => none
    | some r => s.setNodeWithElection n id r
  else none

/-- A voter handles the call of a candidate. -/
def handleVoteRequest (voter : ι)
    (updateBusy : Bool) : Option (Cluster ι) :=
  match s.elections id with
  | none => none
  | some e =>
    if voter ∈ cfg.voters ∧ voter ≠ e.request.candidateUuid ∧ e.replies voter = none ∧
        ¬(s.node voter).noOpPending then
      let (r, response) :=
        (s.node voter).requestVote voter e.request (s.now cfg voter) updateBusy
      some ((s.setNode voter r).setElection id
        { e with replies := update e.replies voter (some response) })
    else none

/-- The call of a candidate to a voter returns, or fails. -/
def handleVoteReply (voter : ι)
    (failed : Bool) : Option (Cluster ι) :=
  match s.elections id with
  | none => none
  | some e =>
    if voter ∈ cfg.voters ∧ voter ≠ e.request.candidateUuid ∧ ¬e.returned voter ∧
        (failed ∨ e.replies voter ≠ none) then
      let reply := if failed then none else e.replies voter
      some (s.setElection id
        (e.voteResponseRpcCallback voter reply (s.now cfg e.request.candidateUuid)))
    else none

/-- The callback of a decided election. -/
def electionCallback (id newId : ℕ)
    (ctx : ApplyContext) : Option (Cluster ι) :=
  match s.elections id with
  | none => none
  | some e =>
    let n := e.request.candidateUuid
    if e.callbackPending ∧ ¬(s.node n).noOpPending then
      match (s.node n).doElectionCallback n cfg.toRaftConfig e ctx with
      | none => none
      | some r =>
        (s.setElection id { e with callbackPending := false }).setNodeWithElection n newId r
    else none

/-! ## Updates -/

/-- Whether the hybrid times of new operations are readings of the clock, one after the other. -/
def areReadings : HybridTime → List NewRound → Bool
  | _, [] => true
  | last, round :: rest => last < round.hybridTime && areReadings round.hybridTime rest

def replicate (n : ι)
    (rounds : List NewRound) : Option (Cluster ι) :=
  let r := s.node n
  if ¬r.noOpPending ∧ areReadings r.clock rounds then
    let clock := (rounds.getLast?.map NewRound.hybridTime).getD r.clock
    ({ r with clock := clock }.replicateBatch n cfg.toRaftConfig (s.now cfg n) rounds).map
      (s.setNode n)
  else none

/-- A leader sends a request to a peer that it waits for no call of. -/
def sendUpdate (n peer : ι) (id : ℕ)
    (nowHt : HybridTime) (safeTime : Option HybridTime) : Option (Cluster ι) :=
  let r := s.node n
  if r.performing peer = none ∧ peer ≠ n ∧ r.clock < nowHt ∧ s.updateRpcs id = none then
    match r.queue.requestForPeer cfg.flags n peer r.log (s.now cfg n) nowHt safeTime with
    | .error _ => none
    | .ok (request, queue) =>
      let r :=
        { r with
          queue := queue
          clock := nowHt
          performing := update r.performing peer (some id) }
      some ((s.setNode n r).setUpdateRpc id { dest := peer, request := request })
  else none

/-- A leader prepares a request and does not send it: it cannot be filled, or has nothing new. -/
def updateNotSent (n peer : ι) (nowHt : HybridTime)
    (safeTime : Option HybridTime) : Option (Cluster ι) :=
  let r := s.node n
  if r.performing peer = none ∧ peer ≠ n ∧ r.clock < nowHt then
    let queue :=
      match r.queue.requestForPeer cfg.flags n peer r.log (s.now cfg n) nowHt safeTime with
      | .error _ => r.queue.requestForPeerFailed cfg.flags peer (s.now cfg n) nowHt
      | .ok (_, queue) => queue.requestWasNotSent peer
    some (s.setNode n { r with queue := queue, clock := nowHt })
  else none

/-- A replica handles an update, and then waits for its log. -/
def handleUpdate (id numPrepared : ℕ)
    (earlyCommit markCommitted : ApplyContext) (tie : ℕ) : Option (Cluster ι) :=
  match s.updateRpcs id with
  | none => none
  | some c =>
    if c.status = .sent ∧ ¬(s.node c.dest).noOpPending then
      match (s.node c.dest).updateReplica c.dest cfg.toRaftConfig c.request
          ⟨s.now cfg c.dest, numPrepared, earlyCommit, markCommitted, tie⟩ with
      | none => none
      | some (r, result) =>
        let status := match result with
          | some result => .waiting result
          | none => .lost
        some ((s.setNode c.dest r).setUpdateRpc id { c with status := status })
    else none

/-- The wait of an update is over: an election that was pending starts, and the reply is sent.
`WaitForWrites` looks at the term only when a wait for the log has timed out, so the term may have
changed; a call that it fails is one that is lost. -/
def updateReturns (nowHt : HybridTime)
    (newId : ℕ) (preelection : Bool) (ctx : ApplyContext) : Option (Cluster ι) :=
  match s.updateRpcs id with
  | none => none
  | some c =>
    match c.status with
    | .waiting result =>
      let r := s.node c.dest
      if (result.waitForOpId.all r.log.isSafeOpIdToApply) ∧ r.clock < nowHt then
        let response := { result.response with propagatedHybridTime := some nowHt }
        let s :=
          (s.setNode c.dest { r with clock := nowHt }).setUpdateRpc id
            { c with status := .returned response }
        if result.startElection then
          s.startElection cfg c.dest newId { ignoreLiveLeader := true, pendingCommit := true }
            preelection ctx
        else some s
      else none
    | _ => none

/-- The reply to an update arrives at a leader that waits for it. -/
def handleUpdateReply (id tie : ℕ) : Option (Cluster ι) :=
  match s.updateRpcs id with
  | none => none
  | some c =>
    match c.status with
    | .returned response =>
      let n := c.request.callerUuid
      let r := s.node n
      if r.performing c.dest = some id then
        let r := r.updateClock response.propagatedHybridTime
        let r := { r with performing := update r.performing c.dest none }
        if response.status.error = some .cannotPrepare then some (s.setNode n r)
        else
          (r.queue.responseFromPeer n cfg.voters r.log c.dest (some response.responderTerm)
              response.status tie).map fun queue =>
            s.setNode n { r with queue := queue }
      else none
    | _ => none

/-- A leader sees its call fail. -/
def updateFails : Option (Cluster ι) :=
  match s.updateRpcs id with
  | none => none
  | some c =>
    let n := c.request.callerUuid
    let r := s.node n
    if r.performing c.dest = some id then
      some (s.setNode n { r with performing := update r.performing c.dest none })
    else none

/-- A leader steps down, and may ask another replica to start an election. -/
def stepDown (newLeader : Option ι) (id : ℕ) : Option (Cluster ι) :=
  let r := s.node n
  if r.isLeader n ∧ ¬r.noOpPending ∧ s.runElectionRpcs id = none then
    let s' := s.setNode n (r.becomeReplica n)
    match newLeader with
    | none => some s'
    | some dest =>
      some (s'.setRunElectionRpc id
        { dest := dest
          request := { committedIndex := some r.state.lastCommittedOpId }
          callerTerm := r.state.currentTerm })
  else none

def handleRunElection (id newId : ℕ) (preelection : Bool)
    (ctx : ApplyContext) : Option (Cluster ι) :=
  match s.runElectionRpcs id with
  | none => none
  | some c =>
    if c.delivered then none
    else
      (s.setRunElectionRpc id { c with delivered := true }).startElection cfg c.dest newId
        { ignoreLiveLeader := true
          pendingCommit := c.request.committedIndex.isSome
          mustBeCommittedOpId := c.request.committedIndex }
        preelection ctx

/-! ## Crashes -/

/-- The metadata on disk when a replica stops. -/
def metadataAtCrash : CrashPoint → Option (PersistentMetadata ι)
  | .idle => some (s.node n).state.flushed
  | .startingElection => some ⟨(s.node n).state.currentTerm + 1, none⟩
  | .voting id =>
    match s.elections id with
    | none => none
    | some e =>
      if e.request.preelection = false ∧
          (s.node n).state.currentTerm < e.request.candidateTerm then
        some ⟨e.request.candidateTerm, none⟩
      else none

/-- The replica's own elections and the updates it was handling are over. -/
def dropCalls : Cluster ι :=
  { s with
    elections := fun id => (s.elections id).map fun e =>
      if e.request.candidateUuid = n then
        { e with callbackPending := false, returned := fun _ => true }
      else e
    updateRpcs := fun id => (s.updateRpcs id).map fun c =>
      if c.dest = n ∧ c.status ≠ .sent then { c with status := .lost } else c }

/-- A replica stops and starts again. -/
def crash (point : CrashPoint) (recovered : RaftConsensus ι) :
    Option (Cluster ι) :=
  match s.metadataAtCrash n point with
  | none => none
  | some metadata =>
    if recovered.state.flushed = metadata ∧
        recovered.state.currentTerm = metadata.currentTerm ∧
        recovered.state.votedFor = metadata.votedFor ∧
        recovered.state.leaderUuid = none ∧ recovered.queue.mode = .nonLeader ∧
        recovered.noOpPending = false ∧ recovered.boundTerm = none then
      some ((s.dropCalls n).setNode n { recovered with performing := fun _ => none })
    else none

/-! ## Steps -/

/-- Replaces one replica by what a call that can fail makes of it. -/
def onNode (f : RaftConsensus ι → Option (RaftConsensus ι)) :
    Option (Cluster ι) :=
  (f (s.node n)).map (s.setNode n)

/-- The state after a step; `none` if the step is not possible. -/
def step (s : Cluster ι) : ClusterEvent ι → Option (Cluster ι)
  | .tick d => some { s with time := s.time + d }
  | .startElection n id ignoreLiveLeader preelection =>
    s.startElection cfg n id { ignoreLiveLeader := ignoreLiveLeader } preelection {}
  | .handleVoteRequest id voter updateBusy => s.handleVoteRequest cfg id voter updateBusy
  | .handleVoteReply id voter failed => s.handleVoteReply cfg id voter failed
  | .electionCallback id newId ctx => s.electionCallback cfg id newId ctx
  | .appendNoOp n nowHt =>
    s.onNode n fun r =>
      if r.noOpPending ∧ r.clock < nowHt then
        r.appendNoOp n cfg.toRaftConfig (s.now cfg n) nowHt
      else none
  | .replicate n rounds => s.replicate cfg n rounds
  | .sendUpdate n peer id nowHt safeTime => s.sendUpdate cfg n peer id nowHt safeTime
  | .updateNotSent n peer nowHt safeTime => s.updateNotSent cfg n peer nowHt safeTime
  | .handleUpdate id numPrepared earlyCommit markCommitted tie =>
    s.handleUpdate cfg id numPrepared earlyCommit markCommitted tie
  | .updateReturns id nowHt newId preelection ctx =>
    s.updateReturns cfg id nowHt newId preelection ctx
  | .handleUpdateReply id tie => s.handleUpdateReply cfg id tie
  | .updateFails id => s.updateFails id
  | .runNotification n ctx =>
    s.onNode n fun r =>
      if r.noOpPending then none else r.runNotification n cfg.toRaftConfig ctx
  | .processBatch n => s.onNode n processBatch
  | .groupWork n => s.onNode n groupWork
  | .rollOver n => s.onNode n fun r => some r.rollOver
  | .runCallback n tie => s.onNode n fun r => r.runCallback n cfg.toRaftConfig tie
  | .evict n index =>
    s.onNode n fun r =>
      some { r with
        queue := { r.queue with logCache := r.queue.logCache.evictThroughOp index } }
  | .stepDown n newLeader id => s.stepDown n newLeader id
  | .handleRunElection id newId preelection ctx =>
    s.handleRunElection cfg id newId preelection ctx
  | .crash n point recovered => s.crash n point recovered

/-- The steps as a relation. -/
def Step (s : Cluster ι) (e : ClusterEvent ι) (s' : Cluster ι) : Prop :=
  s.step cfg e = some s'

end Cluster
