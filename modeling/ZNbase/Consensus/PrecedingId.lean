import ZNbase.Consensus.LogAgreement
import ZNbase.Consensus.CommitAdvance
import ZNbase.Lib.Except

/-!
# The operation that a request follows on

A request of a leader names the operation before the ones it has, `preceding_id`. It comes from one
of three places: the id that was appended last, the cache or the log, or what the leader has noted
of the peer. `IdsIn own q log` says that all ids in these places are ids that `own` holds of.

- `RequestForPeer` then names such an id, and the functions of the queue keep it so
  (`IdsIn.requestForPeer` and the lemmas before it).
- A replica whose own log has all the ids (`OwnIds`) stays so as long as its log only grows. The log
  loses operations when a request conflicts with it.
- A reply can bring an id of another log: `last_received_current_leader` is not looked up.
-/

open List OpLog PeerMessageQueue List.Subset Function

variable {id : OpId}

/-! ## The queue -/

/-- All ids that a queue and its log keep are ids that `own` holds of. -/
structure IdsIn {ι : Type*} (own : OpId → Prop) (q : PeerMessageQueue ι) (log : Log) : Prop where
  lastAppended : own q.lastAppended
  cache : ∀ i m, q.logCache.cache i = some m → own m.id
  written : ∀ m ∈ log.handed, own m.id
  callbacks : ∀ c ∈ log.pendingCallbacks, own c.lastId
  peers : ∀ uuid p, q.peers uuid = some p → own p.lastReceived

variable {msgs : List ReplicateMsg} {committedOpId : OpId}

namespace IdsIn

open PeerMessageQueue

variable {ι : Type*} {own own' : OpId → Prop} {q q' : PeerMessageQueue ι} {log log' : Log}
  {p p' : TrackedPeer} {self uuid : ι} {voters : List ι} {tie : ℕ} {status : ConsensusStatus}

section

variable (h : IdsIn own q log) {index : ℕ}

include h

/-- Ids of a smaller set are ids of a larger one. -/
lemma mono (hle : ∀ id, own id → own' id) : IdsIn own' q log :=
  ⟨hle _ h.lastAppended, fun i m hm => hle _ (h.cache i m hm), fun m hm => hle _ (h.written m hm),
    fun c hc => hle _ (h.callbacks c hc), fun uuid p hp => hle _ (h.peers uuid p hp)⟩

/-- The fields with ids are the same. -/
lemma of_eq (happd : q'.lastAppended = q.lastAppended)
    (hcache : q'.logCache.cache = q.logCache.cache) (hpeers : q'.peers = q.peers) :
    IdsIn own q' log :=
  ⟨happd ▸ h.lastAppended, hcache ▸ h.cache, h.written, h.callbacks, hpeers ▸ h.peers⟩

/-- Only the operations that the log was handed and its pending callbacks matter. -/
lemma of_log (hwritten : log'.handed ⊆ log.handed)
    (hcbs : log'.pendingCallbacks ⊆ log.pendingCallbacks) : IdsIn own q log' :=
  ⟨h.lastAppended, h.cache, fun m hm => h.written m (hwritten hm),
    fun c hc => h.callbacks c (hcbs hc), h.peers⟩

/-- A peer may be changed as long as what is noted of it is an own id. -/
lemma setPeer [DecidableEq ι] (hp : own p.lastReceived) : IdsIn own (q.setPeer uuid p) log := by
  refine { h with peers := fun u p' hp' => ?_ }
  simp only [PeerMessageQueue.setPeer, update_eq_some_iff] at hp'
  rcases hp' with ⟨-, rfl⟩ | ⟨-, hp'⟩
  · exact hp
  · exact h.peers u p' hp'

/-- What the cache or the log has at an index is one of their operations. -/
lemma lookup {m : ReplicateMsg} (hm : q.logCache.lookup log index = some m) : own m.id := by
  rw [LogCache.lookup] at hm
  cases hcache : q.logCache.cache index with
  | some m' =>
    rw [hcache] at hm
    cases hm
    exact h.cache index m hcache
  | none =>
    rw [hcache] at hm
    refine h.written m (mem_append_left _ ?_)
    exact mem_reverse.1 (mem_of_find?_eq_some hm)

/-- An id that is looked up in the cache or the log is an own one. -/
lemma lookupOpId (hid : q.logCache.lookupOpId log index = .ok id) : own id := by
  rw [LogCache.lookupOpId] at hid
  split_ifs at hid
  split at hid
  case h_1 m hm =>
    cases hid
    exact h.lookup hm
  · cases hid

/-- The operations that are read follow an own one. -/
lemma readOps {after upTo : ℕ} {maxSize : ℤ} {result : ReadOpsResult}
    (hread : q.logCache.readOps log after upTo maxSize = .ok result) : own result.precedingOp := by
  rw [LogCache.readOps] at hread
  split at hread
  · cases hread
  case h_2 preceding hlookup =>
    dsimp only at hread
    split at hread
    · cases hread
    · cases hread
      exact h.lookupOpId hlookup

end

/-! ### Requests -/

section Requests

variable [DecidableEq ι] {flags : RaftFlags} {now : CoarseTimePoint} {nowHt : HybridTime}
  {safeTime : Option HybridTime} {request : ConsensusRequest ι}

/-- A request follows on one of the ids. -/
lemma requestForPeer (h : IdsIn own q log)
    (hr : q.requestForPeer flags self uuid log now nowHt safeTime = .ok (request, q')) :
    IdsIn own q' log ∧ own request.precedingId := by
  obtain ⟨p, hreq⟩ := requestForPeer_spec hr
  have hpeer := h.peers uuid p hreq.peer
  obtain ⟨p', rfl, hrecv, -⟩ := hreq.queue
  refine ⟨h.setPeer (hrecv ▸ hpeer), ?_⟩
  cases hreq.content with
  | isNew _ _ hpreceding => exact hpreceding ▸ h.lastAppended
  | backoff _ _ _ hpreceding => exact hpreceding ▸ hpeer
  | read _ hread _ hpreceding => exact hpreceding ▸ h.readOps hread

/-- A request that cannot be made leaves the ids of the queue alone. -/
lemma requestForPeerFailed (h : IdsIn own q log) :
    IdsIn own (q.requestForPeerFailed flags uuid now nowHt) log := by
  simp only [PeerMessageQueue.requestForPeerFailed]
  split
  case h_1 p _ hp =>
    refine h.setPeer ?_
    rw [(preparePeer_eq flags p now nowHt).1]
    exact h.peers uuid p hp
  · exact h

/-- So does a request that was not sent. -/
lemma requestWasNotSent (h : IdsIn own q log) : IdsIn own (q.requestWasNotSent uuid) log := by
  simp only [PeerMessageQueue.requestWasNotSent]
  split
  case h_1 p hp => exact h.setPeer (h.peers uuid p hp)
  · exact h

end Requests

/-! ### Responses -/

/-- The id of a response that is not looked up is good where it is used. -/
def GoodStatus (own : OpId → Prop) (q : PeerMessageQueue ι) (log : Log) (status : ConsensusStatus) :
    Prop :=
  q.isOpInLog log status.lastReceived = true ∨ own status.lastReceivedCurrentLeader

/-- What is noted of a peer is one of the ids: what was noted before, an operation that was looked
up, or what the peer has from its leader. -/
lemma updateFromStatus (h : IdsIn own q log) (hp : own p.lastReceived)
    (hgood : GoodStatus own q log status) : own (q.updateFromStatus log p status).lastReceived := by
  simp only [PeerMessageQueue.updateFromStatus]
  split_ifs with hin hlead
  · rw [isOpInLog] at hin
    split at hin
    case h_1 id hlookup =>
      rw [of_decide_eq_true hin]
      exact h.lookupOpId hlookup
    · cases hin
  · exact hgood.resolve_left hin
  · exact hp

/-- The watermarks are ids that were noted of peers. -/
lemma advanceWatermarks [DecidableEq ι] (h : IdsIn own q log) :
    IdsIn own (q.advanceWatermarks self voters uuid tie) log := by
  simp only [PeerMessageQueue.advanceWatermarks]
  set q₁ := if q.opIdWatermark voters tie ≠ OpId.min0 then
      { q with majorityReplicatedOpId := q.opIdWatermark voters tie } else q with hq₁
  -- the watermark is not among the ids of the queue
  have h₁ : IdsIn own q₁ log := by
    rw [hq₁]
    split_ifs
    · exact h.of_eq rfl rfl rfl
    · exact h
  cases hp : q₁.peers uuid with
  | some p =>
    have hpeer : IdsIn own (q₁.setPeer uuid
        { p with
          leaderLeaseExpiration := p.leaderLeaseExpiration.onReplyFromFollower
          leaderHtLeaseExpiration := p.leaderHtLeaseExpiration.onReplyFromFollower }) log :=
      h₁.setPeer (h₁.peers uuid p hp)
    exact hpeer.of_eq rfl rfl rfl
  | none => exact h₁.of_eq rfl rfl rfl

/-- A reply whose status is good brings no foreign id into the queue. -/
lemma responseFromPeer [DecidableEq ι] (h : IdsIn own q log) {responderTerm : Option ℕ}
    (hgood : GoodStatus own q log status)
    (hr : q.responseFromPeer self voters log uuid responderTerm status tie = some q') :
    IdsIn own q' log := by
  simp only [PeerMessageQueue.responseFromPeer] at hr
  split at hr
  · cases hr
    exact h
  case h_2 p hp =>
    -- all branches but the first note the status of the peer
    have hset (ok : Bool) : IdsIn own (q.setPeer uuid
        { q.updateFromStatus log p status with isLastExchangeSuccessful := ok }) log :=
      h.setPeer (h.updateFromStatus (h.peers uuid p hp) hgood)
    split at hr
    · cases hr
      exact hset false
    · cases hr
      exact (hset false).of_eq rfl rfl rfl
    · cases hr
    split_ifs at hr
    split at hr
    · cases hr
      exact (hset true).advanceWatermarks
    · cases hr
      exact hset true

/-! ### New operations -/

/-- The cache after a batch has what it had, and the operations of the batch. -/
lemma cache_foldl_insert {c : LogCache} {i : ℕ} {m : ReplicateMsg}
    (h : (msgs.foldl LogCache.insert c).cache i = some m) : c.cache i = some m ∨ m ∈ msgs := by
  induction msgs generalizing c with
  | nil => exact .inl h
  | cons first rest ih =>
    rcases ih h with hc | hm
    · simp only [LogCache.insert, update_eq_some_iff] at hc
      rcases hc with ⟨-, rfl⟩ | ⟨-, hc⟩
      · exact .inr mem_cons_self
      · exact .inl hc
    · exact .inr (mem_cons_of_mem _ hm)

/-- What is in the cache after an append was there before, or is appended. -/
lemma cache_appendOperations {c c' : LogCache} {lastIdx i : ℕ}
    {m : ReplicateMsg} (h : c.appendOperations msgs = some (c', lastIdx))
    (hm : c'.cache i = some m) : c.cache i = some m ∨ m ∈ msgs := by
  cases msgs with
  | nil =>
    cases h
    exact .inl hm
  | cons first rest =>
    obtain ⟨c₁, hc₁, heq⟩ := Option.map_eq_some_iff.1 h
    cases heq
    rw [LogCache.prepareAppendOperations] at hc₁
    split_ifs at hc₁
    cases hc₁
    refine (cache_foldl_insert hm).imp_left fun hover => ?_
    dsimp only at hover
    split_ifs at hover
    exact hover

section

variable (h : IdsIn own q log) {c : AppendCallback}

include h

/-- An append of own operations brings no foreign id into the queue or the log. -/
lemma appendOperations (hmsgs : ∀ m ∈ msgs, own m.id)
    (happ : q.appendOperations log msgs committedOpId = some (q', log')) : IdsIn own q' log' := by
  obtain ⟨hlast, hcbs⟩ := appendOperations_lastId h.lastAppended h.callbacks hmsgs happ
  obtain ⟨⟨cache, lastIdx⟩, hcache, heq⟩ := Option.map_eq_some_iff.1 happ
  cases heq
  refine ⟨hlast, ?_, ?_, hcbs, h.peers⟩
  · intro i m hm
    rcases cache_appendOperations hcache hm with hm' | hm'
    · exact h.cache i m hm'
    · exact hmsgs m hm'
  · intro m hm
    have hm' : m ∈ log.handed ∨ m ∈ msgs := by
      simpa [Log.handed, Log.asyncAppendReplicates, or_assoc] using hm
    exact hm'.elim (h.written m) (hmsgs m)

/-- An eviction only takes operations away. -/
lemma evictThroughOp (index : ℕ) :
    IdsIn own { q with logCache := q.logCache.evictThroughOp index } log := by
  refine { h with cache := fun i m hm => ?_ }
  simp only [LogCache.evictThroughOp] at hm
  split_ifs at hm
  exact h.cache i m hm

/-- The callback of an append notes the id of the append. -/
lemma appendFinished [DecidableEq ι] (hc : own c.lastId)
    (hr : q.appendFinished self voters log c tie = some q') :
    IdsIn own q' log := by
  simp only [PeerMessageQueue.appendFinished, localPeerAppendFinished] at hr
  have hcb : (q.logCache.logCallback c.lastIdxInBatch).cache = q.logCache.cache := by
    rw [LogCache.logCallback]
    split_ifs <;> rfl
  have hq₁ : IdsIn own (if q.lastAppended.index < c.lastId.index then
      { q with logCache := q.logCache.logCallback c.lastIdxInBatch, lastAppended := c.lastId }
      else { q with logCache := q.logCache.logCallback c.lastIdxInBatch }) log := by
    split_ifs
    · exact ⟨hc, hcb ▸ h.cache, h.written, h.callbacks, h.peers⟩
    · exact h.of_eq rfl hcb rfl
  split at hr
  · cases hr
    exact hq₁.evictThroughOp _
  · exact hq₁.responseFromPeer (.inr hc) hr

/-! ### Roles -/

/-- Peers that are no longer tracked leave nothing behind. -/
lemma untrackRemotePeers [DecidableEq ι] : IdsIn own (q.untrackRemotePeers self) log := by
  refine { h with peers := fun uuid p hp => ?_ }
  simp only [PeerMessageQueue.untrackRemotePeers] at hp
  split_ifs at hp
  exact h.peers uuid p hp

/-- A peer that is tracked anew has received nothing. -/
lemma trackRemotePeers [DecidableEq ι] (hmin : own OpId.min0) :
    IdsIn own (q.trackRemotePeers voters) log := by
  refine { h with peers := fun uuid p hp => ?_ }
  simp only [PeerMessageQueue.trackRemotePeers] at hp
  split_ifs at hp
  · cases hp
    exact hmin
  · exact h.peers uuid p hp

/-- A new leader starts with the ids that the queue has. -/
lemma setLeaderMode {currentTerm : ℕ} :
    IdsIn own (q.setLeaderMode committedOpId currentTerm) log := by
  refine { h with peers := fun uuid p hp => ?_ }
  obtain ⟨p', hp', rfl⟩ := Option.map_eq_some_iff.1 hp
  exact h.peers uuid p' hp'

/-! ### The appender -/

/-- The appender writes what it was handed. -/
lemma processBatch (hlog : log.processBatch = some log') : IdsIn own q log' := by
  refine h.of_log ?_ fun _ hc => Log.pendingCallbacks_processBatch hlog ▸ hc
  obtain ⟨b, rest, hsubm, rfl⟩ := Log.processBatch_spec hlog
  simp [Log.handed, Log.doAppend, hsubm]

/-- A sync adds no ids. -/
lemma groupWork (hlog : log.groupWork = some log') : IdsIn own q log' := by
  refine h.of_log ?_ fun _ hc => Log.pendingCallbacks_groupWork hlog ▸ hc
  rw [Log.groupWork_spec hlog]
  exact refl _

/-- The next callback runs. -/
lemma runCallback [DecidableEq ι] (hlog : log.takeCallback = some (c, log'))
    (hr : q.appendFinished self voters log' c tie = some q') : IdsIn own q' log' := by
  have hcbs := Log.pendingCallbacks_takeCallback hlog
  have hlog' : IdsIn own q log' := by
    refine h.of_log ?_ (hcbs ▸ subset_cons_self _ _)
    obtain ⟨rest, rfl⟩ := Log.takeCallback_spec hlog
    exact refl _
  exact hlog'.appendFinished (h.callbacks c (hcbs ▸ mem_cons_self)) hr

end

end IdsIn

/-! ## A replica -/

namespace ReplicaState

variable {ι : Type*} {s s' : ReplicaState ι}

/-- Operations that are committed stay in the log. -/
lemma log_advanceCommittedOpId {ctx : ApplyContext} {couldStop ok : Bool}
    (h : s.advanceCommittedOpId ctx committedOpId couldStop = some (ok, s')) : s'.log = s.log := by
  obtain ⟨done, left, hpend, -, rfl⟩ := advanceCommittedOpId_spec h
  rw [log, log, hpend, ← append_assoc]
  rfl

/-- The state once new operations are pending, with the id of the last of them. -/
def withPrepared (s : ReplicaState ι) (prepared : List ReplicateMsg) : ReplicaState ι :=
  let s := { s with pendingOperations := s.pendingOperations ++ prepared }
  match prepared.getLast? with
  | some last => s.updateLastReceivedOpId last.id
  | none => s

/-- Prepared operations are at the end of the log. -/
lemma log_withPrepared {prepared : List ReplicateMsg} :
    (s.withPrepared prepared).log = s.log ++ prepared := by
  rw [log, log, append_assoc, withPrepared]
  split <;> rfl

end ReplicaState

variable {data : LeaderElectionData} {preelection : Bool}

namespace RaftConsensus

open ReplicaState

variable {ι : Type} [DecidableEq ι] {r r' r₁ : RaftConsensus ι} {self : ι} {cfg : RaftConfig ι}
  {ctx : ApplyContext} {rounds : List NewRound}

/-- All ids that the replica keeps are those of its own log. -/
def OwnIds (r : RaftConsensus ι) : Prop := IdsIn (IdOf r.state.log) r.queue r.log

omit [DecidableEq ι] in
/-- The log of the replica has grown, or is the same. -/
lemma OwnIds.of_state (h : r.OwnIds) (hque : r'.queue = r.queue) (hlog : r'.log = r.log)
    (hsub : r.state.log ⊆ r'.state.log) : r'.OwnIds := by
  rw [OwnIds, hque, hlog]
  exact IdsIn.mono h fun id hid => hid.mono hsub

/-- A leader that steps down keeps its ids. -/
lemma OwnIds.becomeReplica (h : r.OwnIds) : (r.becomeReplica self).OwnIds := by
  apply IdsIn.untrackRemotePeers
  exact IdsIn.of_eq h rfl rfl rfl

/-- A later term does not change the log or the queue. -/
lemma OwnIds.handleTermAdvance (h : r.OwnIds) (newTerm : ℕ) :
    (r.handleTermAdvance self newTerm).OwnIds := by
  rw [RaftConsensus.handleTermAdvance]
  split_ifs
  · exact h
  · exact h.becomeReplica
  · exact h

/-- A new leader only tracks its peers anew. -/
lemma OwnIds.becomeLeader (h : r.OwnIds) {lease : CoarseTimeLease ι}
    {htLease : PhysicalComponentLease ι} : (r.becomeLeader self cfg lease htLease).OwnIds := by
  have hque : IdsIn (IdOf r.state.log) { r.queue with observerRegistered := true } r.log :=
    IdsIn.of_eq h rfl rfl rfl
  exact hque.setLeaderMode.trackRemotePeers (.inl rfl)

omit [DecidableEq ι] in
/-- A later commit index does not change the ids. -/
lemma OwnIds.advance (h : r.OwnIds) {s : ReplicaState ι} {couldStop ok : Bool}
    (hs : r.state.advanceCommittedOpId ctx committedOpId couldStop = some (ok, s)) :
    ({ r with state := s } : RaftConsensus ι).OwnIds :=
  h.of_state rfl rfl fun _ hm => log_advanceCommittedOpId hs ▸ hm

/-! ### Elections and votes -/

/-- An election changes the term and the vote only. -/
lemma OwnIds.createElection (h : r.OwnIds) :
    (r.createElection self cfg data preelection).1.OwnIds := by
  cases preelection with
  | true => exact h
  | false => exact (h.handleTermAdvance _).of_state rfl rfl (refl _)

/-- The start of an election can commit, and changes no ids. -/
lemma OwnIds.doStartElection (h : r.OwnIds) {e : Option (LeaderElection ι)}
    (hr : r.doStartElection self cfg data preelection ctx = some (r', e)) : r'.OwnIds := by
  simp only [RaftConsensus.doStartElection] at hr
  split_ifs at hr
  · cases hr
    exact h
  · simp only [Option.bind_eq_bind, Option.bind_eq_some_iff] at hr
    obtain ⟨⟨ok, s⟩, hadv, hr⟩ := hr
    -- operations that have to be committed are committed first
    have hs := h.advance hadv
    split_ifs at hr
    · cases hr
      exact hs.createElection
    · split at hr
      · cases hr
        -- the election waits for an operation
        exact hs.of_state rfl rfl (refl _)
      · cases hr
        exact hs
  · cases hr
    exact h.createElection

/-- The end of an election makes a leader, or starts the election after a pre-election. -/
lemma OwnIds.doElectionCallback (h : r.OwnIds) {e : LeaderElection ι}
    {started : Option (LeaderElection ι)}
    (hr : r.doElectionCallback self cfg e ctx = some (r', started)) : r'.OwnIds := by
  simp only [RaftConsensus.doElectionCallback] at hr
  split at hr
  · split_ifs at hr
    · cases hr
      exact h
    · exact h.doStartElection hr
    · cases hr
      exact h
    · cases hr
      exact h.becomeLeader
  · cases hr
    exact h.handleTermAdvance _

omit [DecidableEq ι] in
/-- A vote does not change the ids. -/
lemma OwnIds.decideVote (h : r.OwnIds) (request : VoteRequest ι) (now : CoarseTimePoint) :
    (r.decideVote request now).1.OwnIds := by
  have hlog : (withOldLeaderLeases r.state now (voteGranted request)).2.log = r.state.log := by
    simp only [withOldLeaderLeases, remainingOldLeaderLeaseDuration]
    split_ifs <;> rfl
  simp only [RaftConsensus.decideVote]
  split_ifs
  · exact h
  all_goals exact h.of_state rfl rfl fun _ hm => hlog ▸ hm

/-- A call for a vote does not change the ids, whatever the answer is. -/
lemma OwnIds.requestVote (h : r.OwnIds) (request : VoteRequest ι) (now : CoarseTimePoint)
    (updateBusy : Bool) : (r.requestVote self request now updateBusy).1.OwnIds := by
  simp only [RaftConsensus.requestVote]
  split_ifs
  iterate 5
    · exact h
  · exact (h.handleTermAdvance _).decideVote request now
  · exact h.decideVote request now

/-! ### New operations of a leader -/

/-- The rounds that a leader appends are in its log and in its queue. -/
lemma OwnIds.appendNewRoundsToQueue (h : r.OwnIds) {now : CoarseTimePoint}
    (hr : r.appendNewRoundsToQueue self cfg now rounds = some r') :
    r'.OwnIds := by
  simp only [RaftConsensus.appendNewRoundsToQueue, Option.bind_eq_bind, Option.bind_eq_some_iff]
    at hr
  obtain ⟨⟨s, msgs⟩, hadd, hr⟩ := hr
  have hlog := (adds_addRounds (.refl r.state) hadd).log
  split at hr
  · cases hr
    exact h.of_state rfl rfl (hlog ▸ subset_append_left _ _)
  simp only [Option.bind_eq_some_iff, Option.some.injEq] at hr
  obtain ⟨⟨queue, log⟩, happ, rfl⟩ := hr
  have hgrown : IdsIn (IdOf s.log) r.queue r.log :=
    IdsIn.mono h fun id hid => hid.mono (hlog ▸ subset_append_left _ _)
  refine hgrown.appendOperations (fun m hm => .of_mem ?_) happ
  rw [hlog]
  exact mem_append_right _ hm

/-! ### Notifications -/

/-- A watermark that advances commits operations, and can be followed by a no-op. -/
lemma OwnIds.updateMajorityReplicated (h : r.OwnIds) {data : MajorityReplicatedData}
    (hr : r.updateMajorityReplicated self cfg data ctx = some r') : r'.OwnIds := by
  rw [RaftConsensus.updateMajorityReplicated] at hr
  by_cases hlead : r.isLeader self = true
  swap
  · rw [if_pos hlead] at hr
    cases hr
    exact h
  rw [if_neg (not_not.2 hlead)] at hr
  -- the log has the same operations before and after the commit
  have hst {ok : Bool} {s : ReplicaState ι}
      (hs : (r.setMajorityReplicatedLeases cfg data).updateMajorityReplicated ctx data.opId =
        some (ok, s)) : ({ r with state := s } : RaftConsensus ι).OwnIds := by
    rw [ReplicaState.updateMajorityReplicated] at hs
    split_ifs at hs
    · exact h.of_state rfl rfl fun _ hm => log_advanceCommittedOpId hs ▸ hm
    · cases hs
      exact h.of_state rfl rfl (refl _)
  split at hr
  · cases hr
  · rename_i s hs
    cases hr
    exact hst hs
  rename_i s hs
  obtain ⟨r₁, hwrite, rfl⟩ := Option.map_eq_some_iff.1 hr
  -- the commit index is written to the log without operations
  have hr₁ : r₁.OwnIds := by
    rw [writeCommittedOpId] at hwrite
    split_ifs at hwrite
    · obtain ⟨⟨queue, log⟩, happ, rfl⟩ := Option.map_eq_some_iff.1 hwrite
      exact IdsIn.appendOperations (hst hs) (by simp) happ
    · cases hwrite
      exact hst hs
  simp only [raiseCommitted]
  split_ifs
  · exact IdsIn.of_eq hr₁ rfl rfl rfl
  · exact hr₁

/-- Each of the notifications of the queue keeps the ids. -/
lemma OwnIds.runNotification (h : r.OwnIds) (hr : r.runNotification self cfg ctx = some r') :
    r'.OwnIds := by
  simp only [RaftConsensus.runNotification] at hr
  split at hr
  · cases hr
  rename_i n rest _
  have hrest : (r.withQueue { r.queue with notifications := rest }).OwnIds :=
    IdsIn.of_eq h rfl rfl rfl
  split_ifs at hr
  · split at hr
    · exact hrest.updateMajorityReplicated hr
    · cases hr
      exact hrest.handleTermAdvance _
  · cases hr
    exact hrest

/-- The callback of a finished append brings an id that was appended. -/
lemma OwnIds.runCallback (h : r.OwnIds) {tie : ℕ}
    (hr : r.runCallback self cfg tie = some r') : r'.OwnIds := by
  simp only [RaftConsensus.runCallback] at hr
  split at hr
  · cases hr
  · rename_i c log hlog
    obtain ⟨queue, hque, rfl⟩ := Option.map_eq_some_iff.1 hr
    exact IdsIn.runCallback h hlog hque

/-! ### Updates -/

/-- A request disagrees with an operation of the replica: with the one at its preceding id, or with
the one at the index of its first new operation. -/
def Conflicts (s : ReplicaState ι) (request : ConsensusRequest ι) : Prop :=
  ∃ deduped ∈ deduplicateLeaderRequest s request,
    s.isOpCommittedOrPending deduped.precedingOpId = some .termMismatch ∨
      ∃ first ∈ deduped.messages.head?, s.isOpCommittedOrPending first.id = some .termMismatch

instance (s : ReplicaState ι) (request : ConsensusRequest ι) : Decidable (Conflicts s request) := by
  unfold Conflicts
  infer_instance

/-- Which operations a replica has does not depend on its term. -/
lemma isOpCommittedOrPending_handleTermAdvance (newTerm : ℕ) (id : OpId) :
    (r.handleTermAdvance self newTerm).state.isOpCommittedOrPending id =
      r.state.isOpCommittedOrPending id := by
  rw [RaftConsensus.handleTermAdvance]
  split_ifs <;> rfl

variable {request : ConsensusRequest ι} {uctx : UpdateContext} {result : Option UpdateReplicaResult}

/-- The check of a request that does not conflict with the log aborts nothing. -/
lemma OwnIds.checkLeaderRequest (h : r.OwnIds) {tie : ℕ} {check : CheckResult}
    (hconf : ¬Conflicts r.state request)
    (hr : r.checkLeaderRequest self cfg request tie = some (r₁, check)) : r₁.OwnIds := by
  obtain ⟨rfl, -⟩ | ⟨deduped, hdeduped, -, -, henf⟩ := checkLeaderRequest_cases hr
  · exact h
  have hadv : (r.handleTermAdvance self request.callerTerm).OwnIds :=
    h.handleTermAdvance request.callerTerm
  cases henf with
  | failed | missing | accepted => exact hadv
  | mismatch hmis =>
    rw [isOpCommittedOrPending_handleTermAdvance] at hmis
    exact absurd ⟨deduped, hdeduped, .inl hmis⟩ hconf
  | aborted _ hfirst hmis =>
    rw [isOpCommittedOrPending_handleTermAdvance] at hmis
    exact absurd ⟨deduped, hdeduped, .inr ⟨_, hfirst, hmis⟩⟩ hconf

omit [DecidableEq ι] in
/-- `MarkOperationsAsCommittedUnlocked` commits on the state with the new operations. -/
lemma markOperationsAsCommitted_withPrepared {s s' : ReplicaState ι} {ctx : ApplyContext}
    {deduped : LeaderRequest} {ok : Bool} {prepared : List ReplicateMsg}
    (h : markOperationsAsCommitted
      { s with pendingOperations := s.pendingOperations ++ prepared } request
      { deduped with messages := prepared } ctx = some (ok, s')) :
    s' = s.withPrepared prepared ∨
      ∃ upTo, (s.withPrepared prepared).advanceCommittedOpId ctx upTo true = some (ok, s') := by
  rw [markOperationsAsCommitted] at h
  rw [ReplicaState.withPrepared]
  cases hlast : prepared.getLast? with
  | some last =>
    simp only [hlast] at h
    exact .inr ⟨_, h⟩
  | none =>
    simp only [hlast] at h
    by_cases hshort : s.lastReceivedOpId.index < deduped.precedingOpId.index
    · rw [if_pos hshort] at h
      cases h
      exact .inl rfl
    · rw [if_neg hshort] at h
      exact .inr ⟨_, h⟩

omit [DecidableEq ι] in
/-- The new operations of an update go to the log of the replica, to its queue and to the WAL. -/
lemma OwnIds.applied (h : r.OwnIds) {prevCommitted : OpId} {deduped : LeaderRequest}
    (hr : Applied r cfg request prevCommitted deduped uctx r' result) : r'.OwnIds := by
  -- the lease of the leader is noted
  have hack : (r.acknowledgeLeader cfg request uctx.now).OwnIds := by
    refine h.of_state rfl rfl fun m hm => ?_
    simp only [acknowledgeLeader]
    split <;> exact hm
  cases hr with
  | stopped hearly | unprepared hearly => exact hack.advance hearly
  | @prepared s s' _ _ _ _ hearly hwr hmark =>
    have hst := hack.advance hearly
    set prepared := deduped.messages.take uctx.numPrepared with hprep
    rw [state_enqueueWrites hwr] at hmark
    -- what was prepared is at the end of the log, whatever is committed
    have hlog : s'.log = s.log ++ prepared := by
      rw [← log_withPrepared]
      obtain rfl | ⟨upTo, hadv⟩ := markOperationsAsCommitted_withPrepared hmark
      · rfl
      · exact log_advanceCommittedOpId hadv
    -- the ids that were own ones still are
    have hgrown : IdsIn (IdOf s'.log) r.queue r.log :=
      IdsIn.mono hst fun id hid => hid.mono (hlog ▸ subset_append_left _ _)
    obtain ⟨rfl, -⟩ | ⟨queue, log, committed, happ, rfl⟩ := enqueueWrites_cases hwr
    · exact hgrown
    · refine hgrown.appendOperations (fun m hm => .of_mem ?_) happ
      rw [hlog]
      exact mem_append_right _ hm

/-- An update that conflicts with nothing the replica has keeps the ids. -/
lemma OwnIds.updateReplica (h : r.OwnIds) (hconf : ¬Conflicts r.state request)
    (hr : r.updateReplica self cfg request uctx = some (r', result)) : r'.OwnIds := by
  obtain ⟨r₁, check, hchk, hrest⟩ := updateReplica_cases hr
  have hclk : (r.updateClock request.propagatedHybridTime).OwnIds := h
  have hr₁ := hclk.checkLeaderRequest hconf hchk
  obtain ⟨rfl, -⟩ | ⟨deduped, -, happl⟩ := hrest
  · exact hr₁
  · exact hr₁.applied happl

end RaftConsensus

/-! ## The replicas -/

namespace Cluster

open RaftConsensus (OwnIds Conflicts)

variable {ι : Type} [DecidableEq ι] {cfg : ClusterConfig ι} {s s' : Cluster ι} {n m peer : ι}

/-- A step brings no id to the replica `n` that is not of its own log, and takes no operation from
the log: no request that it gets conflicts with its log, and the last operation that a reply says to
be of the current leader is one of its log, unless it does not count. -/
def NoForeignId (n : ι) (s : Cluster ι) : ClusterEvent ι → Prop
  | .handleUpdate id _ _ _ _ =>
    ∀ c ∈ s.updateRpcs id, c.dest = n → ¬Conflicts (s.node n).state c.request
  | .handleUpdateReply id _ =>
    ∀ c ∈ s.updateRpcs id, c.request.callerUuid = n → ∀ response ∈ c.status.returned?,
      (s.node n).queue.isOpInLog (s.node n).log response.status.lastReceived = true ∨
        IdOf (s.node n).state.log response.status.lastReceivedCurrentLeader
  | .crash m _ _ => m ≠ n
  | _ => True

instance (n : ι) (s : Cluster ι) (e : ClusterEvent ι) : Decidable (NoForeignId n s e) := by
  induction e using ClusterEvent.casesOn <;> (unfold NoForeignId; infer_instance)

section

variable (h : (s.node n).OwnIds) {id newId : ℕ} {ctx : ApplyContext} {nowHt : HybridTime}
  {safeTime : Option HybridTime}

include h

/-- Replaces a replica by one that keeps the ids, if it is `n`. -/
lemma ownIds_setNode {r : RaftConsensus ι}
    (hr : m = n → (s.node m).OwnIds → r.OwnIds) : ((s.setNode m r).node n).OwnIds := by
  by_cases hm : n = m
  · subst hm
    rw [setNode_node_self]
    exact hr rfl h
  · simp only [setNode, Function.update_of_ne hm]
    exact h

/-- A step of one replica that keeps the ids. -/
lemma ownIds_onNode {f : RaftConsensus ι → Option (RaftConsensus ι)}
    (hf : ∀ r', (s.node m).OwnIds → f (s.node m) = some r' → r'.OwnIds)
    (hs : s.onNode m f = some s') : (s'.node n).OwnIds := by
  obtain ⟨r', hr', rfl⟩ := Option.map_eq_some_iff.1 hs
  exact ownIds_setNode h fun _ h => hf r' h hr'

/-! ### Elections -/

/-- A replica that is changed together with an election, which has no ids. -/
lemma ownIds_setNodeWithElection {r : RaftConsensus ι × Option (LeaderElection ι)}
    (hr : m = n → (s.node m).OwnIds → r.1.OwnIds)
    (hs : s.setNodeWithElection m id r = some s') : (s'.node n).OwnIds := by
  rw [setNodeWithElection] at hs
  split at hs
  · cases hs
    exact ownIds_setNode h hr
  · split_ifs at hs
    cases hs
    exact ownIds_setNode h hr

/-- An election starts. -/
lemma ownIds_startElection
    (hs : s.startElection cfg m id data preelection ctx = some s') : (s'.node n).OwnIds := by
  rw [startElection] at hs
  split_ifs at hs
  split at hs
  · cases hs
  · rename_i r hr
    exact ownIds_setNodeWithElection h (fun _ h => h.doStartElection hr) hs

/-- A voter handles a request for its vote. -/
lemma ownIds_handleVoteRequest {voter : ι} {updateBusy : Bool}
    (hs : s.handleVoteRequest cfg id voter updateBusy = some s') : (s'.node n).OwnIds := by
  simp only [handleVoteRequest] at hs
  split at hs
  · cases hs
  · split_ifs at hs
    cases hs
    exact ownIds_setNode h fun _ h => h.requestVote _ _ _

/-- The candidate counts a reply, and no replica changes. -/
lemma ownIds_handleVoteReply {voter : ι} {failed : Bool}
    (hs : s.handleVoteReply cfg id voter failed = some s') : (s'.node n).OwnIds := by
  simp only [handleVoteReply] at hs
  split at hs
  · cases hs
  · split_ifs at hs <;> cases hs <;> exact h

/-- A candidate learns how its election ended. -/
lemma ownIds_electionCallback
    (hs : s.electionCallback cfg id newId ctx = some s') : (s'.node n).OwnIds := by
  simp only [electionCallback] at hs
  split at hs
  · cases hs
  split_ifs at hs
  split at hs
  · cases hs
  · rename_i r hr
    exact ownIds_setNodeWithElection (s := s.setElection id _) h
      (fun _ h => h.doElectionCallback hr) hs

/-- A replica is told to start an election. -/
lemma ownIds_handleRunElection
    (hs : s.handleRunElection cfg id newId preelection ctx = some s') : (s'.node n).OwnIds := by
  simp only [handleRunElection] at hs
  split at hs
  · cases hs
  · split_ifs at hs
    exact ownIds_startElection (s := s.setRunElectionRpc id _) h hs

/-- A leader steps down. -/
lemma ownIds_stepDown {newLeader : Option ι} (hs : s.stepDown m newLeader id = some s') :
    (s'.node n).OwnIds := by
  simp only [stepDown] at hs
  split_ifs at hs
  have h' : ((s.setNode m ((s.node m).becomeReplica m)).node n).OwnIds :=
    ownIds_setNode h fun _ h => h.becomeReplica
  split at hs <;> cases hs <;> exact h'

/-! ### Calls of a leader -/

/-- A leader appends new rounds. -/
lemma ownIds_replicate {rounds : List RaftConsensus.NewRound}
    (hs : s.replicate cfg m rounds = some s') :
    (s'.node n).OwnIds := by
  simp only [replicate, RaftConsensus.replicateBatch] at hs
  split_ifs at hs
  · obtain ⟨r', hr', rfl⟩ := Option.map_eq_some_iff.1 hs
    refine ownIds_setNode h fun _ h => ?_
    have hclk (clock : HybridTime) :
        ({ s.node m with clock := clock } : RaftConsensus ι).OwnIds := h
    exact (hclk _).appendNewRoundsToQueue hr'
  · cases hs

/-- A leader makes a request for a peer. -/
lemma ownIds_sendUpdate (hs : s.sendUpdate cfg m peer id nowHt safeTime = some s') :
    (s'.node n).OwnIds := by
  simp only [sendUpdate] at hs
  split_ifs at hs
  split at hs
  · cases hs
  · rename_i request queue hreq
    cases hs
    exact ownIds_setNode h fun _ h => (IdsIn.requestForPeer h hreq).1

/-- A leader makes a request that is not sent. -/
lemma ownIds_updateNotSent (hs : s.updateNotSent cfg m peer nowHt safeTime = some s') :
    (s'.node n).OwnIds := by
  simp only [updateNotSent] at hs
  split_ifs at hs
  cases hs
  refine ownIds_setNode h fun _ h => ?_
  split
  · exact IdsIn.requestForPeerFailed h
  · rename_i request queue hreq
    exact (IdsIn.requestForPeer h hreq).1.requestWasNotSent

/-- A leader handles a reply that names no foreign id. -/
lemma ownIds_handleUpdateReply {tie : ℕ}
    (hcond : NoForeignId n s (.handleUpdateReply id tie))
    (hs : s.handleUpdateReply cfg id tie = some s') : (s'.node n).OwnIds := by
  simp only [handleUpdateReply] at hs
  split at hs
  · cases hs
  rename_i c hc
  split at hs
  · rename_i response hret
    split_ifs at hs
    · cases hs
      exact ownIds_setNode h fun _ h => h
    · obtain ⟨queue, hque, rfl⟩ := Option.map_eq_some_iff.1 hs
      refine ownIds_setNode h fun hcall h => ?_
      subst hcall
      have hgood := hcond c hc rfl response (by simp [UpdateStatus.returned?, hret])
      exact IdsIn.responseFromPeer h hgood hque
  · cases hs

/-- A leader learns that a request has failed. -/
lemma ownIds_updateFails (hs : s.updateFails id = some s') : (s'.node n).OwnIds := by
  simp only [updateFails] at hs
  split at hs
  · cases hs
  · split_ifs at hs
    cases hs
    exact ownIds_setNode h fun _ h => h

/-! ### Updates -/

/-- A replica handles an update that conflicts with nothing it has. -/
lemma ownIds_handleUpdate {numPrepared tie : ℕ} {earlyCommit markCommitted : ApplyContext}
    (hcond : NoForeignId n s (.handleUpdate id numPrepared earlyCommit markCommitted tie))
    (hs : s.handleUpdate cfg id numPrepared earlyCommit markCommitted tie = some s') :
    (s'.node n).OwnIds := by
  simp only [handleUpdate] at hs
  split at hs
  · cases hs
  rename_i c hc
  split_ifs at hs
  split at hs
  · cases hs
  · rename_i r result hr
    cases hs
    refine ownIds_setNode h fun hdest h => ?_
    subst hdest
    exact h.updateReplica (hcond c hc rfl) hr

/-- An update returns, and can start an election. -/
lemma ownIds_updateReturns
    (hs : s.updateReturns cfg id nowHt newId preelection ctx = some s') :
    (s'.node n).OwnIds := by
  simp only [updateReturns] at hs
  split at hs
  · cases hs
  split at hs
  · split_ifs at hs
    · refine ownIds_startElection ?_ hs
      exact ownIds_setNode h fun _ h => h
    · cases hs
      exact ownIds_setNode h fun _ h => h
  · cases hs

/-! ### Steps -/

/-- The ids of a replica are those of its log after a step that brings no others. -/
lemma ownIds_step {e : ClusterEvent ι} (hcond : NoForeignId n s e) (hs : Step cfg s e s') :
    (s'.node n).OwnIds := by
  cases e with
  | tick d =>
    cases hs
    exact h
  | startElection m id ignoreLiveLeader preelection => exact ownIds_startElection h hs
  | handleVoteRequest id voter updateBusy => exact ownIds_handleVoteRequest h hs
  | handleVoteReply id voter failed => exact ownIds_handleVoteReply h hs
  | electionCallback id newId ctx => exact ownIds_electionCallback h hs
  | appendNoOp m nowHt =>
    simp only [Step, step] at hs
    refine ownIds_onNode h (fun r' h hr' => ?_) hs
    split_ifs at hr'
    exact OwnIds.appendNewRoundsToQueue
      (r := { s.node m with noOpPending := false, clock := nowHt }) h hr'
  | replicate m rounds => exact ownIds_replicate h hs
  | sendUpdate m peer id nowHt safeTime => exact ownIds_sendUpdate h hs
  | updateNotSent m peer nowHt safeTime => exact ownIds_updateNotSent h hs
  | handleUpdate id numPrepared earlyCommit markCommitted tie =>
    exact ownIds_handleUpdate h hcond hs
  | updateReturns id nowHt newId preelection ctx => exact ownIds_updateReturns h hs
  | handleUpdateReply id tie => exact ownIds_handleUpdateReply h hcond hs
  | updateFails id => exact ownIds_updateFails h hs
  | runNotification m ctx =>
    simp only [Step, step] at hs
    refine ownIds_onNode h (fun r' h hr' => ?_) hs
    split_ifs at hr'
    exact h.runNotification hr'
  | processBatch m =>
    refine ownIds_onNode h (fun r' h hr' => ?_) hs
    obtain ⟨log, hlog, rfl⟩ := Option.map_eq_some_iff.1 hr'
    exact IdsIn.processBatch h hlog
  | groupWork m =>
    refine ownIds_onNode h (fun r' h hr' => ?_) hs
    obtain ⟨log, hlog, rfl⟩ := Option.map_eq_some_iff.1 hr'
    exact IdsIn.groupWork h hlog
  | rollOver m =>
    cases hs
    exact ownIds_setNode h fun _ h => IdsIn.of_log h (refl _) (refl _)
  | runCallback m tie =>
    simp only [Step, step] at hs
    refine ownIds_onNode h (fun r' h hr' => ?_) hs
    exact h.runCallback hr'
  | evict m index =>
    cases hs
    exact ownIds_setNode h fun _ h => IdsIn.evictThroughOp h index
  | stepDown m newLeader id => exact ownIds_stepDown h hs
  | handleRunElection id newId preelection ctx => exact ownIds_handleRunElection h hs
  | crash m point recovered =>
    simp only [Step, step, crash] at hs
    split at hs
    · cases hs
    · split_ifs at hs
      cases hs
      exact ownIds_setNode h fun hm _ => absurd hm hcond

end

/-- At first there are no ids at all. -/
lemma ownIds_init : ((init : Cluster ι).node n).OwnIds where
  lastAppended := .inl rfl
  cache i m hm := by
    obtain ⟨-, rfl⟩ | ⟨-, hm⟩ := (update_eq_some_iff (f := fun _ => none)).1 hm
    · exact .inl rfl
    · cases hm
  written m hm := by simp [init, RaftConsensus.init, Log.handed] at hm
  callbacks c hc := by simp [init, RaftConsensus.init, Log.pendingCallbacks] at hc
  peers uuid p hp := by
    obtain ⟨-, rfl⟩ | ⟨-, hp⟩ := (update_eq_some_iff).1 hp
    · exact .inl rfl
    · cases hp

/-- In a run whose steps bring no id to a replica that is not of its own log, every request that its
queue makes as leader follows on an operation of its log, or on none. -/
theorem precedingId_of_run {es : List (ClusterEvent ι)} {now : CoarseTimePoint} {nowHt : HybridTime}
    {safeTime : Option HybridTime} {request : ConsensusRequest ι} {queue : PeerMessageQueue ι}
    (hrun : Run (Restrict (NoForeignId n) (Step cfg)) init es s)
    (hrequest : (s.node n).queue.requestForPeer cfg.flags n peer (s.node n).log now nowHt safeTime =
      .ok (request, queue)) :
    request.precedingId = OpId.min0 ∨ request.precedingId ∈ (s.node n).state.log.map (·.id) := by
  have hown : (s.node n).OwnIds := by
    refine hrun.invariant (I := fun s => (s.node n).OwnIds) ?_ ownIds_init
    rintro s e s' h ⟨hcond, hstep⟩
    exact ownIds_step h hcond hstep
  exact (IdsIn.requestForPeer hown hrequest).2

section Example

/-- Five replicas. -/
def fiveNodes : ClusterConfig (Fin 5) where
  voters := [0, 1, 2, 3, 4]
  nodup := by decide

/-- Replica 0 is elected in term 1 by the replicas 1 and 2, and appends two operations. -/
def twoOfTerm1 : List (ClusterEvent (Fin 5)) :=
  [.startElection 0 0 false false, .handleVoteRequest 0 1 false, .handleVoteReply 0 1 false,
    .handleVoteRequest 0 2 false, .handleVoteReply 0 2 false, .electionCallback 0 9 {},
    .appendNoOp 0 1, .replicate 0 [{ opType := .changeConfigOp, hybridTime := 2 }]]

/-- Replica 1 gets both operations. -/
def replicatedTo1 : List (ClusterEvent (Fin 5)) :=
  twoOfTerm1 ++
    [.sendUpdate 0 1 0 3 none, .handleUpdate 0 0 {} {} 0, .updateReturns 0 4 9 false {},
      .handleUpdateReply 0 0, .sendUpdate 0 1 1 5 none, .handleUpdate 1 2 {} {} 0]

/-- Replica 1 acknowledges the operations to replica 0. -/
def acknowledgedBy1 : List (ClusterEvent (Fin 5)) :=
  replicatedTo1 ++
    [.processBatch 1, .groupWork 1, .updateReturns 1 6 9 false {}, .handleUpdateReply 1 0]

theorem precedingId_of_run_acknowledgedBy1 :
    ∃ s request queue, Run (Restrict (NoForeignId 0) (Step fiveNodes)) init acknowledgedBy1 s ∧
      (s.node 0).queue.requestForPeer fiveNodes.flags 0 1 (s.node 0).log 0 8 none = .ok
        (request, queue) ∧
      request.precedingId = ⟨1, 2⟩ ∧ request.precedingId ∈ (s.node 0).state.log.map (·.id) := by
  have hexec : ((Run.exec (restrict (NoForeignId 0) (step fiveNodes)) init acknowledgedBy1).bind
      fun s => ((s.node 0).queue.requestForPeer fiveNodes.flags 0 1 (s.node 0).log 0 8
        none).toOption.map fun sent => sent.1.precedingId) = some ⟨1, 2⟩ := by
    decide +kernel
  obtain ⟨s, hs, hsent⟩ := Option.bind_eq_some_iff.1 hexec
  obtain ⟨⟨request, queue⟩, hreq, hprec⟩ := Option.map_eq_some_iff.1 hsent
  have hok := Except.toOption_eq_some.1 hreq
  have hrun := Run.of_exec_restrict hs
  refine ⟨s, request, queue, hrun, hok, hprec, ?_⟩
  exact (precedingId_of_run hrun hok).resolve_left (by rw [hprec]; decide)

/-- Replica 4 is elected in term 2 by the replicas 2 and 3, appends two operations, and asks replica
1 what it has. -/
def twoOfTerm2 : List (ClusterEvent (Fin 5)) :=
  replicatedTo1 ++
    [.startElection 4 1 true false, .startElection 4 2 true false,
      .handleVoteRequest 2 2 false, .handleVoteReply 2 2 false,
      .handleVoteRequest 2 3 false, .handleVoteReply 2 3 false, .electionCallback 2 9 {},
      .appendNoOp 4 1, .replicate 4 [{ opType := .changeConfigOp, hybridTime := 2 }],
      .sendUpdate 4 1 2 3 none, .handleUpdate 2 0 {} {} 0, .updateReturns 2 6 9 false {},
      .handleUpdateReply 2 0,
      .sendUpdate 4 1 3 7 none, .updateFails 3]

/-- Replica 1 has aborted operation 1.2 and says that 1.1 is the last one from the current leader.
When the reply to the next request is lost, replica 4 asks it to go on after 1.1, which replica 4
does not have. -/
theorem not_precedingId_twoOfTerm2 :
    ∃ s request queue, Run (Step fiveNodes) init twoOfTerm2 s ∧ (s.node 4).queue.mode = .leader ∧
      (s.node 4).queue.requestForPeer fiveNodes.flags 4 1 (s.node 4).log 0 8 none = .ok
        (request, queue) ∧
      request.precedingId = ⟨1, 1⟩ ∧ (s.node 4).state.log.map (·.id) = [⟨2, 1⟩, ⟨2, 2⟩] := by
  have hexec : ((Run.exec (step fiveNodes) init twoOfTerm2).bind fun s =>
      ((s.node 4).queue.requestForPeer fiveNodes.flags 4 1 (s.node 4).log 0 8
        none).toOption.map fun sent =>
          ((s.node 4).queue.mode, sent.1.precedingId, (s.node 4).state.log.map (·.id))) =
        some (.leader, ⟨1, 1⟩, [⟨2, 1⟩, ⟨2, 2⟩]) := by
    decide +kernel
  obtain ⟨s, hs, hsent⟩ := Option.bind_eq_some_iff.1 hexec
  obtain ⟨⟨request, queue⟩, hreq, heq⟩ := Option.map_eq_some_iff.1 hsent
  simp only [Prod.mk.injEq] at heq
  obtain ⟨hmode, hprec, hlog⟩ := heq
  exact ⟨s, request, queue, Run.of_exec hs, hmode, Except.toOption_eq_some.1 hreq, hprec, hlog⟩

end Example

end Cluster
