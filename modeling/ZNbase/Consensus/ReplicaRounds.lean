import ZNbase.Consensus.QuorumUtil
import ZNbase.Consensus.ReplicaState
import ZNbase.Consensus.RetryableRequests

/-!
# Consensus rounds of a replica

`ReplicaState` of `consensus/replica_state.cc` with what the operations carry: the configs of a
`CHANGE_CONFIG_OP`, the request of a `WRITE_OP`, the tablets of a `SPLIT_OP`. `RoundState` has the
pending rounds and what they have changed: the pending config, the running requests and
`split_op_info_`.

- `core` has the fields of `ReplicaState`. Its two lists of operations are not used;
  `toReplicaState` fills them in from the rounds.
- A function that fails has a result of its own beside the state, since it can have changed the
  state before it failed. `none` stands for a failed `CHECK`.
- The replica is in the state `kRunning`.
-/

open Option List ReplicaState

/-- The part of a `SplitTabletRequestPB` that is used here. -/
structure SplitTabletRequest where
  tabletId : String
  newTablet1Id : String
  newTablet2Id : String
  deriving DecidableEq

/-- `SplitOpInfo`: the operation that splits the tablet, and the tablets it makes. -/
structure SplitOpInfo where
  opId : OpId := OpId.min0
  childTabletIds : List String := []
  deriving DecidableEq

/-- The type of an operation with what it carries. -/
inductive RoundPayload
  | noOp
  | changeConfigOp (oldConfig newConfig : RaftConfigPB)
  | writeOp (request : Option WriteRequest)
  | splitOp (request : SplitTabletRequest)
  /-- Every other type. -/
  | otherOp
  deriving DecidableEq

namespace RoundPayload

/-- The type of the operation, with all types that `ReplicaState` does not tell apart as one. -/
def opType : RoundPayload → OperationType
  | .noOp => .noOp
  | .changeConfigOp _ _ => .changeConfigOp
  | .writeOp _ => .writeOp
  | .splitOp _ => .otherOp
  | .otherOp => .otherOp

/-- `ShouldAllowOpAfterSplitTablet`. -/
def shouldAllowOpAfterSplitTablet : RoundPayload → Bool
  | .noOp => true
  | _ => false

/-- Whether the operation is added by a leader only if no old leader may have a lease. -/
def needsLease : RoundPayload → Bool
  | .noOp => false
  | .changeConfigOp _ _ => false
  | _ => true

/-- The request of a write. -/
def writeRequest : RoundPayload → Option WriteRequest
  | .writeOp request => request
  | _ => none

end RoundPayload

/-- `ConsensusRound`, with the fields of its `ReplicateMsg`. -/
structure ConsensusRound where
  id : OpId := OpId.min0
  hybridTime : HybridTime := 0
  payload : RoundPayload
  byteSize : ℕ := 1
  /-- A number for the round itself. -/
  number : ℕ := 0
  boundTerm : ℕ := 0
  deriving DecidableEq

namespace ConsensusRound

variable (round : ConsensusRound)

/-- The operation of the round. -/
def msg : ReplicateMsg :=
  ⟨round.id, round.hybridTime, round.payload.opType, round.byteSize⟩

@[simp] lemma msg_id : round.msg.id = round.id := rfl

/-- What `RetryableRequests` sees of the round. -/
def retryable : RetryableRound :=
  ⟨round.number, ⟨round.id, round.payload.writeRequest⟩, round.boundTerm⟩

end ConsensusRound

/-- A `ReplicaState` with its rounds. -/
structure RoundState where
  core : ReplicaState String := {}
  pendingOperations : List ConsensusRound := []
  /-- The rounds whose operations are applied. -/
  applied : List ConsensusRound := []
  splitOpInfo : SplitOpInfo := {}
  retryableRequests : RetryableRequests := RetryableRequests.init
  committedConfig : RaftConfigPB
  pendingConfig : Option RaftConfigPB := none
  leaderNoOpCommitted : Bool := false

/-- What does not change: the flags, the tablet, the replica. -/
structure RoundEnv where
  flags : RaftFlags := {}
  tabletId : String
  peerUuid : String
  rangeTimeLimit : ℤ := 30

/-- The readings of the clocks. -/
structure RoundClock where
  now : CoarseTimePoint := 0
  /-- The time that a new request gets. -/
  entryTime : RestartSafeCoarseTimePoint := 0
  deriving DecidableEq

namespace RoundState

variable (s : RoundState)

/-- The state of the replica without what the operations carry. -/
def toReplicaState : ReplicaState String :=
  { s.core with
    pendingOperations := s.pendingOperations.map (·.msg)
    applied := s.applied.map (·.msg) }

/-! ## Configs -/

/-- `GetActiveConfigUnlocked`. -/
def activeConfig : RaftConfigPB := s.pendingConfig.getD s.committedConfig

variable (env : RoundEnv)

/-- Whether `GetActiveRoleUnlocked` is `LEADER`. -/
def isActiveLeader : Bool :=
  s.core.leaderUuid = some env.peerUuid ∧ s.activeConfig.isRaftConfigVoter env.peerUuid

/-- `SetPendingConfigUnlocked`. -/
def setPendingConfig (newConfig : RaftConfigPB) :
    Option (Except RaftConfigError RoundState) :=
  match newConfig.verifyRaftConfig .uncommittedQuorum with
  | .error e => some (.error e)
  | .ok () =>
    if s.pendingConfig = none then some (.ok { s with pendingConfig := some newConfig }) else none

/-- `ClearPendingConfigUnlocked`. Without a pending config there is nothing to clear. -/
def clearPendingConfig : RoundState := { s with pendingConfig := none }

/-- `SetCommittedConfigUnlocked`, for a caller that checks its status. The config has to be the
pending one. -/
def setCommittedConfig (config : RaftConfigPB) : Option RoundState :=
  match config.verifyRaftConfig .committedQuorum with
  | .error _ => none
  | .ok () =>
    if s.pendingConfig = some config.clearOpidIndex then
      some { s with committedConfig := config, pendingConfig := none }
    else none

/-- `ApplyConfigChangeUnlocked`. -/
def applyConfigChange (id : OpId) (newConfig : RaftConfigPB) :
    Option RoundState :=
  if s.committedConfig.opidIndex.getD 0 < id.index then
    s.setCommittedConfig { newConfig with opidIndex := some id.index }
  else some s

/-! ## Adding and cancelling rounds -/

/-- Why a round is not added. -/
inductive AddPendingError
  /-- The id is not above the one of the split operation. -/
  | notAfterSplitOp
  /-- The operation should be retried on the new tablets, `TABLET_SPLIT`. -/
  | tabletSplit (info : SplitOpInfo)
  | leaderHasNoLease
  | configChangePending
  | duplicateRequest
  | splitOfOtherTablet
  deriving DecidableEq

/-- A round at the end of the pending ones. -/
def push (round : ConsensusRound) : RoundState :=
  { s with pendingOperations := s.pendingOperations ++ [round] }

/-- Whether a leader must not add an operation that needs a lease. -/
def oldLeaderMayHaveLease (clock : RoundClock)
    (hybridTime : HybridTime) : Bool :=
  let numPeers := s.activeConfig.peers.length
  s.core.getHybridTimeLeaseStatusAt env.flags numPeers
      (HybridTime.getPhysicalValueMicros hybridTime) = .oldLeaderMayHaveLease ∨
    s.core.getLeaderLeaseStatus numPeers clock.now = .oldLeaderMayHaveLease

/-- The part of `AddPendingOperation` that depends on what the round carries. -/
def addPayload (clock : RoundClock) (round : ConsensusRound) :
    Option (Except AddPendingError Unit × RoundState) :=
  match round.payload with
  | .changeConfigOp _ newConfig =>
    -- a leader has set the pending config before
    if s.isActiveLeader env then some (.ok (), s.push round)
    else if s.pendingConfig.isSome then some (.error .configChangePending, s)
    else if s.committedConfig.opidIndex.getD 0 < round.id.index then
      match s.setPendingConfig newConfig with
      | some (.ok s) => some (.ok (), s.push round)
      | _ => none
    else some (.ok (), s.push round)
  | .writeOp _ =>
    let result := s.retryableRequests.register round.retryable clock.entryTime
    let s := { s with retryableRequests := result.1 }
    if result.2.1 then some (.ok (), s.push round) else some (.error .duplicateRequest, s)
  | .splitOp request =>
    if request.tabletId ≠ env.tabletId then some (.error .splitOfOtherTablet, s)
    else
      let info : SplitOpInfo := ⟨round.id, [request.newTablet1Id, request.newTablet2Id]⟩
      some (.ok (), { s with splitOpInfo := info }.push round)
  | _ => some (.ok (), s.push round)

/-- `AddPendingOperation`. -/
def addPendingOperation (clock : RoundClock)
    (round : ConsensusRound) : Option (Except AddPendingError Unit × RoundState) :=
  if ¬s.splitOpInfo.opId < round.id then some (.error .notAfterSplitOp, s)
  else if s.splitOpInfo.opId ≠ OpId.min0 ∧ ¬round.payload.shouldAllowOpAfterSplitTablet then
    some (.error (.tabletSplit s.splitOpInfo), s)
  else if s.isActiveLeader env ∧ round.payload.needsLease ∧
      s.oldLeaderMayHaveLease env clock round.hybridTime then
    some (.error .leaderHasNoLease, s)
  else s.addPayload env clock round

/-- `NewIdUnlocked`. -/
def newId : OpId × RoundState := (s.core.newId.1, { s with core := s.core.newId.2 })

/-- `UpdateLastReceivedOpIdUnlocked`. -/
def updateLastReceivedOpId (opId : OpId) : RoundState :=
  { s with core := s.core.updateLastReceivedOpId opId }

/-- `CancelPendingOperation`. -/
def cancelPendingOperation (id : OpId) (shouldExist : Bool) : Option RoundState :=
  (s.core.cancelPendingOperation id false).map fun core =>
    { s with
      core := core
      splitOpInfo := if id = s.splitOpInfo.opId then {} else s.splitOpInfo
      pendingOperations :=
        if shouldExist then s.pendingOperations.dropLast else s.pendingOperations }

/-- What `CancelPendingOperation` has done. -/
lemma cancelPendingOperation_spec {s s' : RoundState} {id : OpId} {shouldExist : Bool}
    (h : s.cancelPendingOperation id shouldExist = some s') :
    s.core.currentTerm = id.term ∧ s.core.nextIndex = id.index + 1 ∧
      s' = { s with
        core := { s.core with nextIndex := id.index, lastReceivedOpId := ⟨id.term, id.index - 1⟩ }
        splitOpInfo := if id = s.splitOpInfo.opId then {} else s.splitOpInfo
        pendingOperations :=
          if shouldExist then s.pendingOperations.dropLast else s.pendingOperations } := by
  obtain ⟨core, hcore, rfl⟩ := map_eq_some_iff.1 h
  rw [ReplicaState.cancelPendingOperation] at hcore
  by_cases hid : s.core.currentTerm = id.term ∧ s.core.nextIndex = id.index + 1
  · rw [if_pos hid] at hcore
    cases hcore
    exact ⟨hid.1, hid.2, rfl⟩
  · rw [if_neg hid] at hcore
    cases hcore

/-! ## Finishing rounds -/

/-- `NonTxRoundReplicationFinished`, for a `NO_OP` or a `CHANGE_CONFIG_OP`. -/
def nonTxRoundReplicationFinished (round : ConsensusRound) (ok : Bool) :
    RoundState :=
  match round.payload with
  | .noOp =>
    if round.id.term = s.core.currentTerm then { s with leaderNoOpCommitted := true } else s
  | .changeConfigOp _ _ => if ok then s else s.clearPendingConfig
  | _ => s

/-- `NotifyReplicationFinishedUnlocked`. -/
def notifyReplicationFinished (leaderTerm : ℕ) (ok : Bool)
    (round : ConsensusRound) : RoundState :=
  let s := s.nonTxRoundReplicationFinished round ok
  let status : Status := if ok then ⟨.ok, ""⟩ else ⟨.other, "Operation aborted by new leader"⟩
  { s with
    retryableRequests :=
      (s.retryableRequests.replicationFinished env.rangeTimeLimit round.retryable.replicateMsg
        status leaderTerm).1 }

/-- `AbortOpsAfterUnlocked`. -/
def abortOpsAfter (newPrecedingIdx : ℕ) : Option RoundState :=
  (s.toReplicaState.abortOpsAfter newPrecedingIdx).map fun core =>
    let aborted := s.pendingOperations.dropWhile (·.id.index ≤ newPrecedingIdx)
    let kept := s.pendingOperations.takeWhile (·.id.index ≤ newPrecedingIdx)
    aborted.foldl (fun s round => s.notifyReplicationFinished env 0 false round)
      { s with core := core, pendingOperations := kept }

/-- What the loop of `ApplyPendingOperationsUnlocked` does with a round that it takes from the
pending ones. -/
def applyRound (leaderTerm : ℕ) (s : RoundState) (round : ConsensusRound) :
    Option RoundState :=
  let applied : Option RoundState :=
    match round.payload with
    | .changeConfigOp _ newConfig => s.applyConfigChange round.id newConfig
    | _ => some s
  applied.map fun s => s.notifyReplicationFinished env leaderTerm true round

/-- `ApplyPendingOperationsUnlocked`, with whether its status is OK. -/
def applyPendingOperations (ctx : ApplyContext)
    (committedIndex : ℕ) (couldStop : Bool) : Option (Bool × RoundState) :=
  match applyLoop ctx couldStop committedIndex s.core.lastCommittedOpId OpId.min0
      (s.pendingOperations.map (·.msg)) with
  | none => none
  | some (done, _, ok) =>
    let rounds := s.pendingOperations.take done.length
    let left := s.pendingOperations.drop done.length
    let lastId := (rounds.getLast?.map (·.id)).getD s.core.lastCommittedOpId
    (rounds.foldlM (applyRound env s.core.currentTerm) { s with pendingOperations := left }).map
      fun s =>
        (ok, { s with
          core := { s.core with lastCommittedOpId := lastId }
          applied := s.applied ++ rounds })

/-- `AdvanceCommittedOpIdUnlocked`, with whether its status is OK. -/
def advanceCommittedOpId (ctx : ApplyContext)
    (committedOpId : OpId) (couldStop : Bool) : Option (Bool × RoundState) :=
  if committedOpId.index ≤ s.core.lastCommittedOpId.index then some (true, s)
  else if s.pendingOperations = [] then some (false, s)
  else s.applyPendingOperations env ctx committedOpId.index couldStop

/-! ## The rounds and their operations -/

variable {s s' : RoundState} {env : RoundEnv} {clock : RoundClock} {round : ConsensusRound}

section Notify

variable {leaderTerm : ℕ} {ok : Bool}

/-- A round that is no write changes nothing about the operations when it has finished. -/
lemma nonTxRoundReplicationFinished_frame (s : RoundState) (round : ConsensusRound) (ok : Bool) :
    (s.nonTxRoundReplicationFinished round ok).core = s.core ∧
      (s.nonTxRoundReplicationFinished round ok).pendingOperations = s.pendingOperations ∧
      (s.nonTxRoundReplicationFinished round ok).applied = s.applied ∧
      (s.nonTxRoundReplicationFinished round ok).splitOpInfo = s.splitOpInfo := by
  rw [nonTxRoundReplicationFinished]
  split
  · split_ifs <;> simp
  · split_ifs <;> simp [clearPendingConfig]
  · simp

@[simp] lemma core_notifyReplicationFinished :
    (s.notifyReplicationFinished env leaderTerm ok round).core = s.core :=
  (s.nonTxRoundReplicationFinished_frame round ok).1

@[simp] lemma pendingOperations_notifyReplicationFinished :
    (s.notifyReplicationFinished env leaderTerm ok round).pendingOperations = s.pendingOperations :=
  (s.nonTxRoundReplicationFinished_frame round ok).2.1

@[simp] lemma applied_notifyReplicationFinished :
    (s.notifyReplicationFinished env leaderTerm ok round).applied = s.applied :=
  (s.nonTxRoundReplicationFinished_frame round ok).2.2.1

@[simp] lemma splitOpInfo_notifyReplicationFinished :
    (s.notifyReplicationFinished env leaderTerm ok round).splitOpInfo = s.splitOpInfo :=
  (s.nonTxRoundReplicationFinished_frame round ok).2.2.2

end Notify

/-- What is done with rounds that are aborted changes neither the log nor the split operation. -/
lemma foldl_notify_frame (env : RoundEnv) (leaderTerm : ℕ) (ok : Bool)
    (rounds : List ConsensusRound) (s : RoundState) :
    let s' := rounds.foldl (fun s round => s.notifyReplicationFinished env leaderTerm ok round) s
    s'.core = s.core ∧ s'.pendingOperations = s.pendingOperations ∧ s'.applied = s.applied ∧
      s'.splitOpInfo = s.splitOpInfo := by
  induction rounds generalizing s with
  | nil => simp
  | cons round rest ih =>
    obtain ⟨hcore, hpend, happl, hspl⟩ := ih (s.notifyReplicationFinished env leaderTerm ok round)
    exact ⟨by simp [hcore], by simp [hpend], by simp [happl], by simp [hspl]⟩

/-! ## What adding a round does -/

/-- What `RetryableRequests` is after it has seen the round. Only a write is registered. -/
def registered (s : RoundState) (clock : RoundClock) (round : ConsensusRound) : RetryableRequests :=
  (s.retryableRequests.register round.retryable clock.entryTime).1

/-- The state `s'` is `s` with the round added. -/
structure Adds (env : RoundEnv) (clock : RoundClock) (s : RoundState) (round : ConsensusRound)
    (s' : RoundState) : Prop where
  core : s'.core = s.core
  pendingOperations : s'.pendingOperations = s.pendingOperations ++ [round]
  applied : s'.applied = s.applied
  committedConfig : s'.committedConfig = s.committedConfig
  leaderNoOpCommitted : s'.leaderNoOpCommitted = s.leaderNoOpCommitted
  after_split : s.splitOpInfo.opId < round.id
  splitOpInfo : s'.splitOpInfo = s.splitOpInfo ∨
    s.splitOpInfo.opId = OpId.min0 ∧ s'.splitOpInfo.opId = round.id ∧
      ∃ request, round.payload = .splitOp request
  retryableRequests : s'.retryableRequests = s.registered clock round
  accepted : (s.retryableRequests.register round.retryable clock.entryTime).2.1 = true
  pendingConfig : s'.pendingConfig = s.pendingConfig ∨
    ¬s.isActiveLeader env ∧ s.pendingConfig = none ∧
      ∃ oldConfig newConfig, round.payload = .changeConfigOp oldConfig newConfig ∧
        s'.pendingConfig = some newConfig

/-- A round that carries no request of a client is registered without a trace. -/
lemma register_of_not_write (hrnd : round.payload.writeRequest = none) :
    s.retryableRequests.register round.retryable clock.entryTime =
      (s.retryableRequests, true, []) := by
  simp [RetryableRequests.register, ConsensusRound.retryable, RetryableMsg.replicateData, hrnd]

/-- A round that is only put at the end of the pending ones, with what `RetryableRequests` says. -/
lemma adds_push (hspl : s.splitOpInfo.opId < round.id)
    (hreg : (s.retryableRequests.register round.retryable clock.entryTime).2.1 = true) :
    Adds env clock s round ({ s with retryableRequests := s.registered clock round }.push round)
      where
  core := rfl
  pendingOperations := rfl
  applied := rfl
  committedConfig := rfl
  leaderNoOpCommitted := rfl
  after_split := hspl
  splitOpInfo := .inl rfl
  retryableRequests := rfl
  accepted := hreg
  pendingConfig := .inl rfl

/-- What is added for the kinds of rounds. -/
lemma addPayload_ok (hspl : s.splitOpInfo.opId < round.id)
    (hall : s.splitOpInfo.opId = OpId.min0 ∨ round.payload.shouldAllowOpAfterSplitTablet)
    (h : s.addPayload env clock round = some (.ok (), s')) : Adds env clock s round s' := by
  rw [addPayload] at h
  -- no payload but a write is registered
  have hplain (hnone : round.payload.writeRequest = none) :
      Adds env clock s round (s.push round) := by
    have hreg : s.retryableRequests.register round.retryable clock.entryTime =
        (s.retryableRequests, true, []) := register_of_not_write hnone
    have hadds : Adds env clock s round
        ({ s with retryableRequests := s.registered clock round }.push round) :=
      adds_push hspl (by rw [hreg])
    rwa [registered, hreg] at hadds
  split at h
  case h_1 old new hpay =>
    have hnone : round.payload.writeRequest = none := by rw [hpay]; rfl
    split_ifs at h with hlead hpend hidx
    · cases h
      exact hplain hnone
    · cases h
    · rw [setPendingConfig] at h
      split at h
      case h_1 pending hset =>
        cases h
        split at hset
        · cases hset
        · split_ifs at hset with hemp
          cases hset
          exact { hplain hnone with
            pendingConfig := .inr ⟨hlead, hemp, old, new, hpay, rfl⟩ }
      case h_2 => cases h
    · cases h
      exact hplain hnone
  case h_2 request hpay =>
    dsimp only at h
    split_ifs at h with hreg
    · cases h
      exact adds_push hspl hreg
    · cases h
  case h_3 request hpay =>
    split_ifs at h with htab
    · cases h
    · cases h
      have hmin : s.splitOpInfo.opId = OpId.min0 := by
        simpa [hpay, RoundPayload.shouldAllowOpAfterSplitTablet] using hall
      exact { hplain (by rw [hpay]; rfl) with
        splitOpInfo := .inr ⟨hmin, rfl, request, hpay⟩ }
  case h_4 payload hcfg hwrite hsplitOp =>
    cases h
    refine hplain ?_
    cases hpay : round.payload with
    | writeOp request => exact absurd hpay (hwrite request)
    | _ => rfl

/-- A round is added with all that `Adds` says. -/
lemma addPendingOperation_ok (h : s.addPendingOperation env clock round = some (.ok (), s')) :
    Adds env clock s round s' := by
  rw [addPendingOperation] at h
  by_cases hspl : s.splitOpInfo.opId < round.id
  · split_ifs at h with hall hlease
    · cases h
    · cases h
    · refine addPayload_ok hspl ?_ h
      simpa [or_iff_not_imp_left] using hall
  · rw [if_pos hspl] at h
    cases h

/-- A round that is not added leaves the state as it is, but for a write that was seen before. -/
lemma addPendingOperation_error {e : AddPendingError}
    (h : s.addPendingOperation env clock round = some (.error e, s')) :
    s' = s ∨ e = .duplicateRequest ∧ s' = { s with retryableRequests := s.registered clock round } ∧
      (s.retryableRequests.register round.retryable clock.entryTime).2.1 = false := by
  rw [addPendingOperation] at h
  split_ifs at h with hspl hall hlease
  all_goals first | cases h; exact .inl rfl | skip
  rw [addPayload] at h
  split at h
  case h_1 old new hpay =>
    split_ifs at h with hlead hpend hidx
    · cases h
    · cases h
      exact .inl rfl
    · split at h
      · cases h
      · cases h
    · cases h
  case h_2 request hpay =>
    dsimp only at h
    split_ifs at h with hreg
    · cases h
    · cases h
      exact .inr ⟨rfl, rfl, by simpa using hreg⟩
  case h_3 request hpay =>
    split_ifs at h with htab
    · cases h
      exact .inl rfl
    · cases h
  case h_4 => cases h

/-! ## What applying rounds does -/

/-- A committed config changes nothing about the operations. -/
lemma applyConfigChange_frame {id : OpId} {newConfig : RaftConfigPB}
    (h : s.applyConfigChange id newConfig = some s') :
    s'.core = s.core ∧ s'.pendingOperations = s.pendingOperations ∧ s'.applied = s.applied ∧
      s'.splitOpInfo = s.splitOpInfo := by
  rw [applyConfigChange] at h
  split_ifs at h
  · rw [setCommittedConfig] at h
    split at h
    · cases h
    · split_ifs at h
      cases h
      simp
  · cases h
    simp

/-- A round that is applied leaves the log as it is. -/
lemma applyRound_frame {leaderTerm : ℕ} (h : applyRound env leaderTerm s round = some s') :
    s'.core = s.core ∧ s'.pendingOperations = s.pendingOperations ∧ s'.applied = s.applied ∧
      s'.splitOpInfo = s.splitOpInfo := by
  obtain ⟨t, ht, rfl⟩ := map_eq_some_iff.1 h
  have hframe : t.core = s.core ∧ t.pendingOperations = s.pendingOperations ∧
      t.applied = s.applied ∧ t.splitOpInfo = s.splitOpInfo := by
    split at ht
    · exact applyConfigChange_frame ht
    · cases ht
      simp
  simpa using hframe

/-- Rounds that are applied change only the requests and the config. -/
lemma foldlM_applyRound_frame {leaderTerm : ℕ} {rounds : List ConsensusRound}
    (h : rounds.foldlM (applyRound env leaderTerm) s = some s') :
    s'.core = s.core ∧ s'.pendingOperations = s.pendingOperations ∧ s'.applied = s.applied ∧
      s'.splitOpInfo = s.splitOpInfo := by
  induction rounds generalizing s with
  | nil =>
    cases h
    simp
  | cons round rest ih =>
    obtain ⟨t, ht, hrest⟩ := bind_eq_some_iff.1 h
    obtain ⟨hcore, hpend, happl, hspl⟩ := applyRound_frame ht
    rw [← hcore, ← hpend, ← happl, ← hspl]
    exact ih hrest

/-- Committing rounds moves some of them from the pending ones to the applied ones, and is the same
for their operations. -/
lemma advanceCommittedOpId_spec {ctx : ApplyContext} {committedOpId : OpId} {couldStop ok : Bool}
    (h : s.advanceCommittedOpId env ctx committedOpId couldStop = some (ok, s')) :
    s'.applied ++ s'.pendingOperations = s.applied ++ s.pendingOperations ∧
      s'.splitOpInfo = s.splitOpInfo ∧
      s.toReplicaState.advanceCommittedOpId ctx committedOpId couldStop =
        some (ok, s'.toReplicaState) := by
  have hidx : s.toReplicaState.lastCommittedOpId = s.core.lastCommittedOpId := rfl
  have hpend : s.toReplicaState.pendingOperations = s.pendingOperations.map (·.msg) := rfl
  rw [advanceCommittedOpId] at h
  simp only [ReplicaState.advanceCommittedOpId, hidx, hpend, map_eq_nil_iff]
  split_ifs at h ⊢
  · cases h
    exact ⟨rfl, rfl, rfl⟩
  · cases h
    exact ⟨rfl, rfl, rfl⟩
  rw [applyPendingOperations] at h
  rw [ReplicaState.applyPendingOperations, hidx, hpend]
  split at h
  · cases h
  case h_2 done left ok' hloop =>
    obtain ⟨t, ht, heq⟩ := map_eq_some_iff.1 h
    cases heq
    obtain ⟨hcore, htpending, happl, hspl⟩ := foldlM_applyRound_frame ht
    refine ⟨?_, hspl, ?_⟩
    · rw [happl, htpending, append_assoc, take_append_drop]
    · -- the loop over the operations takes as many as rounds are taken
      have hsplitList := (applyLoop_spec hloop).1
      have hdone : done = (s.pendingOperations.take done.length).map (·.msg) := by
        rw [map_take, hsplitList, take_left]
      have hleft : left = (s.pendingOperations.drop done.length).map (·.msg) := by
        rw [map_drop, hsplitList, drop_left]
      have hlast :
          done.getLast?.map (·.id) =
          (s.pendingOperations.take done.length).getLast?.map (·.id) := by
        conv_lhs => rw [hdone, getLast?_map, Option.map_map]
        rfl
      rw [hloop]
      simp only [map_some, toReplicaState, finishApply, hcore, htpending, happl, map_append,
        ← hdone, ← hleft, hlast]

end RoundState
