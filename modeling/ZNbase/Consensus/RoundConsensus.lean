import ZNbase.Consensus.ReplicaRounds
import ZNbase.Lib.Run

/-!
# Rounds and configs on one replica

The functions of `consensus/raft_consensus.cc` that append rounds on a leader and on a follower, and
that change the config of the tablet. `RoundConsensus` is a replica: its `RoundState`, and the copy
of the active config that its `PeerMessageQueue` has.

- A step is what the replica does under its lock in one call, or a part of `UpdateReplica`. An
  update by another leader comes to a replica only while it is not leader itself.
- How the queue answers an append is an argument, and so are the readings of the clocks.
- The peers of the `PeerManager`, which follow the active config, are left out.
-/

open RoundState

/-- How `PeerMessageQueue::AppendOperations` ends. -/
inductive QueueStatus
  | ok
  | serviceUnavailable
  | otherError
  deriving DecidableEq

/-- How `AppendNewRoundsToQueueUnlocked` ends. -/
inductive AppendStatus
  | ok
  | notAdded (error : AddPendingError)
  | serviceUnavailable
  | queueError
  deriving DecidableEq

namespace RoundState

/-! ## Appending rounds -/

/-- Gives the ids of rounds back, the last one first. -/
def rollbackIds (s : RoundState) : List ConsensusRound → Option RoundState
  | [] => some s
  | round :: rest => do
    let s ← rollbackIds s rest
    s.cancelPendingOperation round.id true

/-- The loop of `AppendNewRoundsToQueueUnlocked` over rounds that have no id yet. `added` are the
rounds of the batch that were added. -/
def addRounds (env : RoundEnv) : RoundState → List ConsensusRound →
    List (RoundClock × ConsensusRound) →
      Option (Except AddPendingError (List ConsensusRound) × RoundState)
  | s, added, [] => some (.ok added, s)
  | s, added, (clock, round) :: rest =>
    let opId := s.newId.1
    let round := { round with id := opId }
    match s.newId.2.addPendingOperation env clock round with
    | none => none
    | some (.ok (), s) => addRounds env s (added ++ [round]) rest
    | some (.error e, s) =>
      match s.cancelPendingOperation opId false with
      | none => none
      | some s =>
        -- a duplicate is cancelled alone
        if e = .duplicateRequest then addRounds env s added rest
        else (rollbackIds s added).map fun s => (.error e, s)

/-- `AppendNewRoundsToQueueUnlocked`. Only a queue that is full takes the rounds back. -/
def appendNewRoundsToQueue (s : RoundState) (env : RoundEnv)
    (rounds : List (RoundClock × ConsensusRound)) (queueStatus : QueueStatus) :
    Option (AppendStatus × RoundState) :=
  match addRounds env s [] rounds with
  | none => none
  | some (.error e, s) => some (.notAdded e, s)
  | some (.ok added, s) =>
    match added.getLast? with
    | none => some (.ok, s)
    | some last =>
      match queueStatus with
      | .ok => some (.ok, s.updateLastReceivedOpId last.id)
      | .serviceUnavailable => (rollbackIds s added).map fun s => (.serviceUnavailable, s)
      | .otherError => some (.queueError, s)

/-- `EnqueuePreparesUnlocked` on a follower, for rounds with the ids of the leader: the rounds up to
the first one that cannot be prepared. -/
def enqueuePrepares (env : RoundEnv) :
    RoundState → List (RoundClock × ConsensusRound) → Option (List ConsensusRound × RoundState)
  | s, [] => some ([], s)
  | s, (clock, round) :: rest =>
    match s.addPendingOperation env clock round with
    | none => none
    | some (.error _, s) => some ([], s)
    | some (.ok (), s) => (enqueuePrepares env s rest).map fun (rounds, s) => (round :: rounds, s)

/-- What a follower does with the new rounds of an update: they are pending, and the last one is the
last received. -/
def prepare (s : RoundState) (env : RoundEnv) (rounds : List (RoundClock × ConsensusRound)) :
    Option RoundState :=
  (enqueuePrepares env s rounds).map fun (prepared, s) =>
    match prepared.getLast? with
    | none => s
    | some last => s.updateLastReceivedOpId last.id

/-! ## Invariants of a batch -/

section Invariant

/-- What a property `P` of a state and the rounds that were added has to meet to be an invariant of
a batch. `Q` is what giving an id back ensures. -/
structure BatchInvariant (env : RoundEnv) (rounds : List (RoundClock × ConsensusRound))
    (P Q : RoundState → List ConsensusRound → Prop) : Prop where
  add : ∀ {s s' added clock round}, (clock, round) ∈ rounds → P s added →
    s.newId.2.addPendingOperation env clock { round with id := s.newId.1 } = some (.ok (), s') →
      P s' (added ++ [{ round with id := s.newId.1 }])
  cancel : ∀ {s t s' added clock round e}, (clock, round) ∈ rounds → P s added →
    s.newId.2.addPendingOperation env clock { round with id := s.newId.1 } = some (.error e, t) →
      t.cancelPendingOperation s.newId.1 false = some s' → P s' added ∧ Q s' added
  rollbackIds : ∀ {s s' added}, P s added → (added = [] → Q s added) →
    s.rollbackIds added = some s' → P s' [] ∧ Q s' []

variable {env : RoundEnv} {rounds : List (RoundClock × ConsensusRound)}
  {P Q : RoundState → List ConsensusRound → Prop} {s s' : RoundState} {added : List ConsensusRound}

/-- The loop keeps the invariant, and once it has failed all ids are given back. -/
lemma BatchInvariant.addRounds (hI : BatchInvariant env rounds P Q)
    {result : Except AddPendingError (List ConsensusRound)} (h : P s added)
    (hadd : addRounds env s added rounds = some (result, s')) :
    (∃ added', result = .ok added' ∧ P s' added') ∨ (∃ e, result = .error e) ∧ P s' [] ∧
      Q s' [] := by
  induction rounds generalizing s added with
  | nil =>
    cases hadd
    exact .inl ⟨added, rfl, h⟩
  | cons head rest ih =>
    -- the invariant is about the rounds that are left
    have hrest : BatchInvariant env rest P Q :=
      ⟨fun hx => hI.add (.tail _ hx), fun hx => hI.cancel (.tail _ hx), hI.rollbackIds⟩
    simp only [addRounds] at hadd
    split at hadd
    · cases hadd
    case h_2 t hok => exact ih hrest (hI.add (.head _) h hok) hadd
    case h_3 e t herr =>
      split at hadd
      · cases hadd
      case h_2 u hcan =>
        -- the round is cancelled; only a duplicate lets the loop go on
        obtain ⟨hu, hQ⟩ := hI.cancel (.head _) h herr hcan
        split_ifs at hadd
        · exact ih hrest hu hadd
        · obtain ⟨v, hv, heq⟩ := Option.map_eq_some_iff.1 hadd
          cases heq
          exact .inr ⟨⟨e, rfl⟩, hI.rollbackIds hu (fun _ => hQ) hv⟩

/-- A batch that could not be appended is given back. Otherwise the last id is all that can change
once the rounds are added. -/
lemma BatchInvariant.appendNewRoundsToQueue (hI : BatchInvariant env rounds P Q)
    {queueStatus : QueueStatus} {status : AppendStatus} (h : P s [])
    (happ : s.appendNewRoundsToQueue env rounds queueStatus = some (status, s')) :
    (P s' [] ∧ Q s' []) ∨ (status = .ok ∨ status = .queueError) ∧
      ∃ t added, P t added ∧ (s' = t ∨ ∃ id, s' = t.updateLastReceivedOpId id) := by
  rw [RoundState.appendNewRoundsToQueue] at happ
  split at happ
  · cases happ
  -- a round was rejected, and the rounds before it are taken back
  case h_2 e t hadd =>
    cases happ
    rcases hI.addRounds h hadd with ⟨_, hok, -⟩ | ⟨-, hback⟩
    · cases hok
    · exact .inl hback
  case h_3 added t hadd =>
    rcases hI.addRounds h hadd with ⟨_, hok, ht⟩ | ⟨⟨_, herr⟩, -⟩
    swap
    · cases herr
    cases hok
    split at happ
    · cases happ
      exact .inr ⟨.inl rfl, _, added, ht, .inl rfl⟩
    case h_2 last hlast =>
      cases queueStatus with
      | ok =>
        cases happ
        exact .inr ⟨.inl rfl, _, added, ht, .inr ⟨_, rfl⟩⟩
      | otherError =>
        cases happ
        exact .inr ⟨.inr rfl, _, added, ht, .inl rfl⟩
      | serviceUnavailable =>
        -- the queue is full, and all rounds are taken back
        obtain ⟨u, hu, heq⟩ := Option.map_eq_some_iff.1 happ
        cases heq
        refine .inl (hI.rollbackIds ht (fun hnil => ?_) hu)
        rw [hnil] at hlast
        cases hlast

end Invariant

end RoundState

/-! ## The queue's config -/

/-- The fields of `PeerMessageQueue::QueueState` about the config. -/
structure QueueConfig where
  mode : QueueMode := .nonLeader
  activeConfig : Option RaftConfigPB := none
  majoritySize : ℤ := -1
  deriving DecidableEq

namespace QueueConfig

/-- `SetLeaderMode`. The local peer has to be a voter. -/
def setLeaderMode (localPeerUuid : String) (activeConfig : RaftConfigPB) : Option QueueConfig :=
  if activeConfig.isRaftConfigVoter localPeerUuid then
    some ⟨.leader, some activeConfig, activeConfig.majority⟩
  else none

/-- `SetNonLeaderMode`. -/
def setNonLeaderMode : QueueConfig := {}

end QueueConfig

/-- A replica, as far as rounds and configs go. -/
structure RoundConsensus where
  state : RoundState
  queue : QueueConfig := {}

/-! ## Requests to change the config -/

/-- `ChangeConfigType`. -/
inductive ChangeConfigType
  | unknownChange
  | addServer
  | removeServer
  | changeRole
  deriving DecidableEq

/-- The fields of `ChangeConfigRequestPB` that are used here. -/
structure ChangeConfigRequestPB where
  type : Option ChangeConfigType := none
  server : Option RaftPeerPB := none
  casConfigOpidIndex : Option ℤ := none
  useHost : Option Bool := none
  deriving DecidableEq

/-- Why a change of the config is refused. -/
inductive ChangeConfigError
  | noType
  | noServer
  | useHostNotRemoveServer
  | noPermanentUuid
  | notTheLeader
  | leaderNotReadyChangeConfig
  | casFailed
  | addChangeConfigAlreadyPresent
  | noMemberType
  | notPreVoterOrPreObserver
  | noAddress
  | leaderNotInConfig
  | removeLiveLeaderUsingHostport
  | leaderNeedsStepDown
  | removeChangeConfigNotPresent
  | changeRoleOfLeader
  | changeRoleNotMember
  | changeRoleNotInTransition
  | unsupportedType
  | invalidConfig (error : RaftConfigError)
  | notAppended (status : AppendStatus)
  deriving DecidableEq

/-- Where the leader is, and the flag `use_private_ip`. -/
structure AddressEnv where
  localCloudInfo : CloudInfoPB := {}
  usePrivateIp : UsePrivateIpMode := .never
  deriving DecidableEq

namespace RaftConfigPB

variable (config : RaftConfigPB)

/-- The new config of an `ADD_SERVER`. -/
def addServer (server : RaftPeerPB) :
    Except ChangeConfigError RaftConfigPB :=
  if config.isRaftConfigMember server.uuid then .error .addChangeConfigAlreadyPresent
  else if server.memberType = none then .error .noMemberType
  else if server.type ≠ .preVoter ∧ server.type ≠ .preObserver then
    .error .notPreVoterOrPreObserver
  else if server.lastKnownPrivateAddr = [] then .error .noAddress
  else .ok { config with peers := config.peers ++ [server] }

/-- The new config of a `REMOVE_SERVER` on the leader `peerUuid`. By address, the request is refused
if the one address at which the leader would be contacted is among its addresses. -/
def removeServer (server : RaftPeerPB) (useHostport : Bool)
    (peerUuid : String) (addresses : AddressEnv) : Except ChangeConfigError RaftConfigPB :=
  let remove : Except ChangeConfigError RaftConfigPB :=
    if server.uuid = peerUuid then .error .leaderNeedsStepDown
    else
      match config.removeFromRaftConfig server useHostport with
      | none => .error .removeChangeConfigNotPresent
      | some newConfig => .ok newConfig
  if useHostport then
    if server.lastKnownPrivateAddr = [] then .error .noAddress
    else
      match config.getHostPortFromConfig peerUuid addresses.usePrivateIp
          addresses.localCloudInfo with
      | none => .error .leaderNotInConfig
      | some leaderHp =>
        if server.lastKnownPrivateAddr.contains leaderHp then .error .removeLiveLeaderUsingHostport
        else remove
  else remove

/-- Replaces the first peer with the uuid. -/
def setMember (uuid : String) (peer : RaftPeerPB) : RaftConfigPB :=
  { config with peers := config.peers.replaceF fun p => if p.uuid = uuid then some peer else none }

/-- The new config of a `CHANGE_ROLE` on the leader `peerUuid`. -/
def changeRole (server : RaftPeerPB) (peerUuid : String) :
    Except ChangeConfigError RaftConfigPB :=
  if server.uuid = peerUuid then .error .changeRoleOfLeader
  else
    match config.getRaftConfigMember server.uuid with
    | none => .error .changeRoleNotMember
    | some peer =>
      if peer.type = .preObserver then
        .ok (config.setMember server.uuid { peer with memberType := some .observer })
      else if peer.type = .preVoter then
        .ok (config.setMember server.uuid { peer with memberType := some .voter })
      else .error .changeRoleNotInTransition

end RaftConfigPB

namespace RoundState

/-- `IsLeaderReadyForChangeConfigUnlocked`. -/
def isLeaderReadyForChangeConfig (s : RoundState) (type : ChangeConfigType)
    (serverUuid : String) : Bool :=
  let serversInTransition :=
    match type with
    | .addServer => s.activeConfig.countServersInTransition ""
    | .removeServer => s.activeConfig.countServersInTransition serverUuid
    | _ => 0
  s.core.lastCommittedOpId.term = s.core.currentTerm ∧ s.pendingConfig = none ∧
    serversInTransition = 0

/-- The config that `ChangeConfig` replicates for a request. -/
def newConfig (s : RoundState) (env : RoundEnv) (addresses : AddressEnv)
    (req : ChangeConfigRequestPB) : Except ChangeConfigError RaftConfigPB :=
  match req.type, req.server with
  | none, _ => .error .noType
  | some _, none => .error .noServer
  | some type, some server =>
    let useHostport := req.useHost.getD false
    if type ≠ .removeServer ∧ useHostport then .error .useHostNotRemoveServer
    else if ¬useHostport ∧ server.permanentUuid = none then .error .noPermanentUuid
    else if ¬(s.isActiveLeader env ∧ s.leaderNoOpCommitted) then .error .notTheLeader
    else if ¬s.isLeaderReadyForChangeConfig type server.uuid then
      .error .leaderNotReadyChangeConfig
    else if req.casConfigOpidIndex.any fun i => s.committedConfig.opidIndex.getD 0 ≠ i then
      .error .casFailed
    else
      let config := s.committedConfig.clearOpidIndex
      match type with
      | .addServer => config.addServer server
      | .removeServer => config.removeServer server useHostport env.peerUuid addresses
      | .changeRole => config.changeRole server env.peerUuid
      | .unknownChange => .error .unsupportedType

end RoundState

namespace RoundConsensus

/-! ## Config changes and roles -/

variable (r : RoundConsensus)

/-- `RefreshConsensusQueueAndPeersUnlocked`. -/
def refreshConsensusQueueAndPeers (env : RoundEnv) : Option RoundConsensus :=
  (QueueConfig.setLeaderMode env.peerUuid r.state.activeConfig).map fun queue =>
    { r with queue := queue }

/-- `ReplicateConfigChangeUnlocked`. If the round cannot be appended, the pending config is cleared;
the queue keeps the new config. -/
def replicateConfigChange (env : RoundEnv) (clock : RoundClock)
    (newConfig : RaftConfigPB) (queueStatus : QueueStatus) :
    Option (Except ChangeConfigError Unit × RoundConsensus) :=
  match r.state.setPendingConfig newConfig with
  | none => none
  | some (.error e) => some (.error (.invalidConfig e), r)
  | some (.ok state) =>
    match { r with state := state }.refreshConsensusQueueAndPeers env with
    | none => none
    | some r =>
      let round : ConsensusRound :=
        { payload := .changeConfigOp r.state.committedConfig newConfig }
      match r.state.appendNewRoundsToQueue env [(clock, round)] queueStatus with
      | none => none
      | some (.ok, state) => some (.ok (), { r with state := state })
      | some (status, state) =>
        some (.error (.notAppended status), { r with state := state.clearPendingConfig })

/-- `ChangeConfig`. -/
def changeConfig (env : RoundEnv) (addresses : AddressEnv)
    (clock : RoundClock) (req : ChangeConfigRequestPB) (queueStatus : QueueStatus) :
    Option (Except ChangeConfigError Unit × RoundConsensus) :=
  match r.state.newConfig env addresses req with
  | .error e => some (.error e, r)
  | .ok newConfig => r.replicateConfigChange env clock newConfig queueStatus

/-- The end of a won election, with `BecomeLeaderUnlocked`. -/
def becomeLeader (env : RoundEnv) (clock : RoundClock)
    (queueStatus : QueueStatus) : Option RoundConsensus := do
  let state :=
    { r.state with
      leaderNoOpCommitted := false
      core := { r.state.core with leaderUuid := some env.peerUuid } }
  let r ← { r with state := state }.refreshConsensusQueueAndPeers env
  let (_, state) ← r.state.appendNewRoundsToQueue env [(clock, { payload := .noOp })] queueStatus
  some { r with state := state }

/-- `BecomeReplicaUnlocked`. -/
def becomeReplica : RoundConsensus where
  state := { r.state with core := { r.state.core with leaderUuid := none } }
  queue := QueueConfig.setNonLeaderMode

/-- `HandleTermAdvanceUnlocked`. -/
def handleTermAdvance (env : RoundEnv) (newTerm : ℕ) : RoundConsensus :=
  if newTerm ≤ r.state.core.currentTerm then r
  else
    let r := if r.state.isActiveLeader env then r.becomeReplica else r
    { r with state := { r.state with core := r.state.core.setCurrentTerm newTerm } }

/-! ## Steps -/

/-- The steps of a replica. -/
inductive Event
  | advanceTerm (newTerm : ℕ)
  | becomeLeader (clock : RoundClock) (queueStatus : QueueStatus)
  | stepDown
  | replicate (rounds : List (RoundClock × ConsensusRound)) (queueStatus : QueueStatus)
  | changeConfig (addresses : AddressEnv) (clock : RoundClock) (req : ChangeConfigRequestPB)
      (queueStatus : QueueStatus)
  | acceptLeader (uuid : String)
  | abortOpsAfter (newPrecedingIdx : ℕ)
  | prepare (rounds : List (RoundClock × ConsensusRound))
  | advanceCommittedOpId (ctx : ApplyContext) (committedOpId : OpId) (couldStop : Bool)

/-- Replaces the state of the replica. -/
def withState (state : RoundState) : RoundConsensus := { r with state := state }

/-- Whether the replica is leader. -/
def isLeader (env : RoundEnv) : Prop :=
  r.state.core.leaderUuid = some env.peerUuid

instance (r : RoundConsensus) (env : RoundEnv) : Decidable (r.isLeader env) :=
  inferInstanceAs (Decidable (_ = _))

/-- The replica after a step; `none` if the step is not possible. -/
def step (env : RoundEnv) (r : RoundConsensus) : Event → Option RoundConsensus
  | .advanceTerm newTerm => some (r.handleTermAdvance env newTerm)
  | .becomeLeader clock queueStatus =>
    if r.isLeader env then none else r.becomeLeader env clock queueStatus
  | .stepDown => some r.becomeReplica
  | .replicate rounds queueStatus =>
    if r.state.isActiveLeader env then
      (r.state.appendNewRoundsToQueue env rounds queueStatus).map fun (_, s) => r.withState s
    else none
  | .changeConfig addresses clock req queueStatus =>
    (r.changeConfig env addresses clock req queueStatus).map Prod.snd
  | .acceptLeader uuid =>
    if r.isLeader env ∨ uuid = env.peerUuid then none
    else
      some (r.withState { r.state with core := { r.state.core with leaderUuid := some uuid } })
  | .abortOpsAfter newPrecedingIdx =>
    if r.isLeader env then none
    else (r.state.abortOpsAfter env newPrecedingIdx).map r.withState
  | .prepare rounds =>
    if r.isLeader env then none else (r.state.prepare env rounds).map r.withState
  | .advanceCommittedOpId ctx committedOpId couldStop =>
    (r.state.advanceCommittedOpId env ctx committedOpId couldStop).map fun (_, s) => r.withState s

/-- The steps as a relation. -/
def Step (env : RoundEnv) (r : RoundConsensus) (e : Event) (r' : RoundConsensus) : Prop :=
  r.step env e = some r'

/-- A new replica of a tablet with the config. -/
def init (config : RaftConfigPB) : RoundConsensus where
  state := { committedConfig := config }

/-! ## What the functions do -/

variable {r r' : RoundConsensus} {env : RoundEnv} {clock : RoundClock} {newConfig : RaftConfigPB}
  {queueStatus : QueueStatus} {result : Except ChangeConfigError Unit}

/-- `SetLeaderMode` accepts a config only if the replica is one of its voters. -/
lemma isRaftConfigVoter_of_setLeaderMode {queue : QueueConfig}
    (h : QueueConfig.setLeaderMode env.peerUuid newConfig = some queue) :
    newConfig.isRaftConfigVoter env.peerUuid := by
  rw [QueueConfig.setLeaderMode] at h
  split_ifs at h with hvoter
  exact hvoter

/-- A config change is refused, or the new config is pending and in the queue and its round is
appended; if it is not, the config is not pending any more. -/
lemma replicateConfigChange_spec
    (h : r.replicateConfigChange env clock newConfig queueStatus = some (result, r')) :
    (r' = r ∧ ∃ e, result = .error (.invalidConfig e)) ∨ ∃ queue status state,
        newConfig.verifyRaftConfig .uncommittedQuorum = .ok () ∧ r.state.pendingConfig = none ∧
        QueueConfig.setLeaderMode env.peerUuid newConfig = some queue ∧
        { r.state with pendingConfig := some newConfig }.appendNewRoundsToQueue env
          [(clock, { payload := .changeConfigOp r.state.committedConfig newConfig })] queueStatus =
            some (status, state) ∧
        r' = ⟨if status = .ok then state else state.clearPendingConfig, queue⟩ ∧
        result = if status = .ok then .ok () else .error (.notAppended status) := by
  rw [replicateConfigChange, setPendingConfig] at h
  cases hver : newConfig.verifyRaftConfig .uncommittedQuorum with
  | error e =>
    rw [hver] at h
    cases h
    exact .inl ⟨rfl, e, rfl⟩
  | ok _ =>
    by_cases hpend : r.state.pendingConfig = none
    · simp only [hver, if_pos hpend] at h
      rw [refreshConsensusQueueAndPeers] at h
      cases hque : QueueConfig.setLeaderMode env.peerUuid newConfig with
      | none => simp [activeConfig, hque] at h
      | some queue =>
        simp only [activeConfig, Option.getD_some, hque, Option.map_some] at h
        refine .inr ⟨queue, ?_⟩
        split at h
        · cases h
        case h_2 state happ =>
          cases h
          exact ⟨.ok, state, rfl, hpend, rfl, happ, rfl, rfl⟩
        case h_3 status state hnotOk happ =>
          cases h
          have hne : status ≠ .ok := by
            rintro rfl
            exact hnotOk rfl
          exact ⟨status, state, rfl, hpend, rfl, happ, by rw [if_neg hne], by rw [if_neg hne]⟩
    · -- there is a pending config already
      simp only [hver, if_neg hpend] at h
      cases h

/-- A new leader tells its queue the active config and appends a `NO_OP`. -/
lemma becomeLeader_spec (h : r.becomeLeader env clock queueStatus = some r') :
    ∃ queue status state, QueueConfig.setLeaderMode env.peerUuid r.state.activeConfig = some queue ∧
      { r.state with
          leaderNoOpCommitted := false
          core := { r.state.core with leaderUuid := some env.peerUuid }
        }.appendNewRoundsToQueue env [(clock, { payload := .noOp })] queueStatus =
          some (status, state) ∧
      r' = ⟨state, queue⟩ := by
  obtain ⟨r₁, hrefresh, hrest⟩ := Option.bind_eq_some_iff.1 h
  obtain ⟨queue, hque, rfl⟩ := Option.map_eq_some_iff.1 hrefresh
  obtain ⟨⟨status, state⟩, happ, heq⟩ := Option.bind_eq_some_iff.1 hrest
  cases heq
  exact ⟨queue, status, state, hque, happ, rfl⟩

end RoundConsensus
