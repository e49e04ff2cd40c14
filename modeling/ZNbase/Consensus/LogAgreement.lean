import ZNbase.Consensus.LogElections

/-!
# Agreement of the replicated log

Two replicas that have both committed an operation at an index have committed the same operation
there. This is not so in every run: the source leaves ways open in which it can fail, and `SafeStep`
says of a step, in terms of the state before it, that it takes none of them.

- `RequestVote` compares the candidate's last operation with the last one that the voter's log has
  synced. A voter may have received, and may acknowledge later, operations that are not synced yet.
- A request says which operation its operations follow on. When the queue has no operations to send
  this is the operation the peer was last heard to have, which need not be one of the leader's log;
  and what is sent is read from a cache and from a log that may still have operations that were
  replaced since.
- A reply that names an operation the leader does not have makes the leader believe what the reply
  says about operations of the current leader, which it does not check.
- An election that waits for an operation commits everything up to the operation's index, without a
  check that the operation there is that one.

`log_agreement` is the safety of all runs of safe steps. `lostCommit` is a run, with a vote as in
the first way, in which two replicas commit different operations at the same index.
-/

open OpLog

namespace UpdateStatus

/-- The reply of a call that has returned. -/
def returned? : UpdateStatus → Option ConsensusResponse
  | .returned response => some response
  | _ => none

/-- What a call that waits for the log will return. -/
def waiting? : UpdateStatus → Option RaftConsensus.UpdateReplicaResult
  | .waiting result => some result
  | _ => none

end UpdateStatus

namespace Cluster

variable {ι : Type} [DecidableEq ι] {cfg : ClusterConfig ι} {s s' : Cluster ι} {a : Abstract ι}
  {cand : ℕ → List ReplicateMsg}

/-! ## Safe steps -/

/-- What a voter has received is not ahead of a candidate that gets its vote. -/
@[reducible]
def SafeVote (cfg : ClusterConfig ι) (s : Cluster ι) (id : ℕ) (voter : ι) (updateBusy : Bool) :
    Prop :=
  ∀ e ∈ s.elections id, e.request.preelection = false →
    ((s.node voter).requestVote voter e.request (s.now cfg voter) updateBusy).2.voteGranted = true →
    (s.node voter).state.lastReceivedOpId ≤ e.request.lastReceived

/-- The places that a request to a peer is taken from have what the leader's log has: the id that
was appended last if the peer is new, the last operation noted of a peer that has not answered, and
what is looked up from the peer's next index on. -/
@[reducible]
def SafeRequestTo (r : RaftConsensus ι) (p : TrackedPeer) : Prop :=
  (p.isNew = true → IdOf r.state.log r.queue.lastAppended) ∧
  (p.lastNumMessagesSent ≠ none → IdOf r.state.log p.lastReceived) ∧
  ∀ i < r.queue.logCache.nextSequentialOpIndex, p.nextIndex - 1 ≤ i →
    ∀ m ∈ r.queue.logCache.lookup r.log i, (LogCache.zeroOp :: r.state.log)[i]? = some m

@[reducible]
def SafeRequest (s : Cluster ι) (n peer : ι) : Prop :=
  ∀ p ∈ (s.node n).queue.peers peer, SafeRequestTo (s.node n) p

/-- The operation that a reply names is one of the leader's log: the last one of the peer where it
is looked up and found, or else the last one that the peer says to be of the current leader. If it
names none, what the leader had noted of the peer was confirmed. -/
@[reducible]
def SafeReplyOf (r : RaftConsensus ι) (p : TrackedPeer) (status : ConsensusStatus) : Prop :=
  if r.queue.isOpInLog r.log status.lastReceived then IdOf r.state.log status.lastReceived
  else if status.lastReceivedCurrentLeader ≠ OpId.min0 then
    IdOf r.state.log status.lastReceivedCurrentLeader
  else p.isLastExchangeSuccessful = true ∨ p.lastReceived = OpId.min0

@[reducible]
def SafeReply (s : Cluster ι) (id : ℕ) : Prop :=
  ∀ c ∈ s.updateRpcs id, ∀ p ∈ (s.node c.request.callerUuid).queue.peers c.dest,
    ∀ response ∈ c.status.returned?, response.status.error = none →
      SafeReplyOf (s.node c.request.callerUuid) p response.status

/-- The operation that an election waits for is committed. -/
@[reducible]
def CommittedFor (r : RaftConsensus ι) (data : LeaderElectionData) : Prop :=
  data.pendingCommit = true →
    (data.mustBeCommittedOpId.getD (r.state.pendingElectionOpId.getD OpId.min0)).index ≤
      r.state.lastCommittedOpId.index

/-- An election that an update has started waits for nothing that is not committed. -/
@[reducible]
def SafeReturn (s : Cluster ι) (id : ℕ) : Prop :=
  ∀ c ∈ s.updateRpcs id, ∀ result ∈ c.status.waiting?, result.startElection = true →
    CommittedFor (s.node c.dest) { ignoreLiveLeader := true, pendingCommit := true }

/-- An election that follows a pre-election waits for nothing that is not committed. -/
@[reducible]
def SafeCallback (s : Cluster ι) (id : ℕ) : Prop :=
  ∀ e ∈ s.elections id, e.request.preelection = true →
    CommittedFor (s.node e.request.candidateUuid) e.data

/-- The operation that a leader that has stepped down wants to be committed is committed, or is in
the log of the replica, which is in the term of that leader or a later one. -/
@[reducible]
def SafeRunElection (s : Cluster ι) (id : ℕ) : Prop :=
  ∀ c ∈ s.runElectionRpcs id, ∀ op ∈ c.request.committedIndex,
    op.index ≤ (s.node c.dest).state.lastCommittedOpId.index ∨
      op ∈ (s.node c.dest).state.log.map (·.id) ∧
        c.callerTerm ≤ (s.node c.dest).state.currentTerm

/-- A step that takes none of the ways in which agreement can fail. -/
def SafeStep (cfg : ClusterConfig ι) (s : Cluster ι) : ClusterEvent ι → Prop
  | .handleVoteRequest id voter updateBusy => SafeVote cfg s id voter updateBusy
  | .sendUpdate n peer _ _ _ => SafeRequest s n peer
  | .handleUpdateReply id _ => SafeReply s id
  | .electionCallback id _ _ => SafeCallback s id
  | .updateReturns id _ _ _ _ => SafeReturn s id
  | .handleRunElection id _ _ _ => SafeRunElection s id
  | .crash .. => False
  | _ => True

instance (cfg : ClusterConfig ι) (s : Cluster ι) (e : ClusterEvent ι) :
    Decidable (SafeStep cfg s e) := by
  cases e <;> (unfold SafeStep; infer_instance)

/-! ## Runs -/

/-- The replicas are in the invariant. -/
def Consistent (cfg : ClusterConfig ι) (s : Cluster ι) : Prop :=
  ∃ a cand, LogInv cfg s a cand

omit [DecidableEq ι] in
lemma CommittedFor.pendingSafe {r : RaftConsensus ι} {data : LeaderElectionData}
    {voters : List ι} (h : CommittedFor r data) : PendingSafe voters a r data := by
  rintro hpend op rfl
  exact .inl (h hpend)

/-- A read from places that have what the log has gives a slice of it. -/
lemma isSlice_readOps {l : List ReplicateMsg} {c : LogCache} {log : Log} {after toIndex : ℕ}
    {maxSize : ℤ} {result : ReadOpsResult} (hidx : Indexed l)
    (hown : ∀ i < c.nextSequentialOpIndex, after ≤ i → ∀ m ∈ c.lookup log i,
      (LogCache.zeroOp :: l)[i]? = some m)
    (hread : c.readOps log after toIndex maxSize = .ok result) :
    IsSlice l result.precedingOp result.messages := by
  rw [LogCache.readOps] at hread
  split at hread
  · cases hread
  rename_i preceding hlookup
  dsimp only at hread
  split at hread
  · cases hread
  rename_i messages remaining hloop
  cases hread
  rw [LogCache.lookupOpId] at hlookup
  split_ifs at hlookup with hnext
  split at hlookup
  swap
  · cases hlookup
  rename_i m hm
  cases hlookup
  have hpreceding := hown after (by omega) le_rfl m hm
  obtain ⟨hafter, hle, hlast⟩ :
      m.id.index = after ∧ after ≤ l.length ∧ lastId (l.take after) = m.id := by
    cases after with
    | zero =>
      obtain rfl : LogCache.zeroOp = m := by simpa using hpreceding
      exact ⟨rfl, Nat.zero_le _, rfl⟩
    | succ i =>
      have hi : l[i]? = some m := by simpa using hpreceding
      exact ⟨hidx.index_eq hi, (List.getElem?_eq_some_iff.1 hi).1, lastId_take_succ hi⟩
  refine ⟨hafter ▸ hle, by rw [hafter]; exact hlast, ?_⟩
  rw [hafter]
  refine LogCache.readLoop_isPrefix (fun i hk hi m' hm' => ?_) hloop
  -- the loop stops before the next sequential index
  have hlt : i < c.nextSequentialOpIndex := by
    split_ifs at hi <;> omega
  have hget := hown i hlt (by omega) m' hm'
  rw [List.getElem?_drop, show after + (i - (after + 1)) = i - 1 by omega]
  rwa [show i = i - 1 + 1 by omega, List.getElem?_cons_succ] at hget

/-- A leader sends a part of its own log, and names the operation before it. -/
lemma SafeRequest.isSlice {n peer : ι} {now : CoarseTimePoint} {nowHt : HybridTime}
    {safeTime : Option HybridTime} {request : ConsensusRequest ι} {queue : PeerMessageQueue ι}
    (h : SafeRequest s n peer) (hidx : Indexed (s.node n).state.log)
    (hr : (s.node n).queue.requestForPeer cfg.flags n peer (s.node n).log now nowHt safeTime =
      .ok (request, queue)) :
    IsSlice (s.node n).state.log request.precedingId request.ops := by
  obtain ⟨p, hreq⟩ := PeerMessageQueue.requestForPeer_spec hr
  obtain ⟨happended, hreceived, hlookup⟩ := h p hreq.peer
  cases hreq.content with
  | isNew hnew hops hpreceding =>
    rw [hops, hpreceding]
    exact (happended hnew).isSlice hidx
  | backoff _ hsent hops hpreceding =>
    rw [hops, hpreceding]
    exact (hreceived hsent).isSlice hidx
  | read _ hread hops hpreceding =>
    rw [hops, hpreceding]
    exact isSlice_readOps hidx hlookup hread

/-- What a leader notes about a peer from a safe reply is an operation that it shares with the
peer. -/
lemma LogInv.noted (h : LogInv cfg s a cand) {id : ℕ} {c : UpdateRpc ι} {p : TrackedPeer}
    {response : ConsensusResponse} (hc : s.updateRpcs id = some c)
    (hret : c.status = .returned response) (hok : response.status.error = none)
    (hperf : (s.node c.request.callerUuid).performing c.dest = some id)
    (hp : (s.node c.request.callerUuid).queue.peers c.dest = some p)
    (hsafe : SafeReplyOf (s.node c.request.callerUuid) p response.status) {received : OpId}
    (hreceived : received = ((s.node c.request.callerUuid).queue.updateFromStatus
      (s.node c.request.callerUuid).log p response.status).lastReceived) :
    Known a (s.node c.request.callerUuid).state.currentTerm received ∧
      received.index ≤ a.acked c.dest (s.node c.request.callerUuid).state.currentTerm := by
  set n := c.request.callerUuid with hn
  -- the call is one of the current term, since the leader still waits for it
  obtain ⟨hlead, c', hc', -, -, hterm⟩ := h.performing n c.dest id hperf
  obtain rfl : c = c' := Option.some.inj (hc.symm.trans hc')
  obtain ⟨-, hlog, -⟩ := (h.node n).leading ((h.node n).leader hlead)
  obtain ⟨hack, hcurrent⟩ :=
    (h.update id c hc).reported response.status (by simp [UpdateRpc.reported, hret]) hok
  rw [hterm] at hack
  have hmin : Known a (s.node n).state.currentTerm OpId.min0 ∧
      OpId.min0.index ≤ a.acked c.dest (s.node n).state.currentTerm := ⟨.inl rfl, Nat.zero_le _⟩
  -- an operation of the leader's log that the peer reports is acknowledged
  have hown : IdOf (s.node n).state.log response.status.lastReceived →
      Known a (s.node n).state.currentTerm response.status.lastReceived ∧
        response.status.lastReceived.index ≤ a.acked c.dest (s.node n).state.currentTerm := by
    rintro (heq | hmem)
    · rw [heq]
      exact hmin
    obtain ⟨m, hm, hid⟩ := List.mem_map.1 hmem
    exact ⟨hid ▸ h.known_of_mem_log hm, hack.resolve_right fun hnot => hnot.2 m (hlog ▸ hm) hid⟩
  simp only [PeerMessageQueue.updateFromStatus] at hreceived
  rw [SafeReplyOf] at hsafe
  split_ifs at hsafe hreceived with hin hnone
  · rw [hreceived]
    exact hown hsafe
  · -- the operation of the current leader is the last one of the peer
    rw [hreceived, hcurrent.resolve_left hnone]
    exact hown (hcurrent.resolve_left hnone ▸ hsafe)
  · rcases hsafe with hexchange | hsafe
    · -- it was noted after an earlier exchange
      have hremote := (h.node n).queue.remotePeer c.dest p
        (fun hdest => h.election.caller id c hc hdest.symm) hp hexchange
      rw [hreceived]
      exact hremote
    · rw [hreceived, show p.resetLastRequest.lastReceived = OpId.min0 from hsafe]
      exact hmin

/-- The abstract state of new replicas. -/
def Abstract.init : Abstract ι where
  term _ := 0
  log _ := []
  elected _ := False
  logOf _ := []
  acked _ _ := 0
  ballot _ _ := none

/-- A new replica has nothing. -/
lemma nodeInv_init (voters : List ι) (leads : ℕ → Prop) (hleads : ∀ T, ¬leads T) (n : ι) :
    NodeInv voters Abstract.init leads n (RaftConsensus.init n) where
  sound :=
    ⟨by simp [ReplicaState.log, RaftConsensus.init, Indexed, IndexedFrom], rfl, rfl, rfl, .inl rfl⟩
  bound T hT := by cases hT
  leading hl := absurd hl (hleads _)
  noOpPending hp := by cases hp
  leader hl := by simp [RaftConsensus.init, RaftConsensus.isLeader, ReplicaState.isLeader] at hl
  committed := .inl rfl
  queue := by
    refine ⟨.inl rfl, by simp [Log.pendingCallbacks, RaftConsensus.init], ?_, ?_, ?_, ?_⟩
    · intro p hp
      obtain rfl : { nextIndex := OpId.min0.index + 1 } = p := by
        simpa [RaftConsensus.init, PeerMessageQueue.init, PeerMessageQueue.trackPeer,
          PeerMessageQueue.setPeer] using hp
      exact .inl rfl
    · intro uuid p hu hp
      simp [RaftConsensus.init, PeerMessageQueue.init, PeerMessageQueue.trackPeer,
        PeerMessageQueue.setPeer, hu] at hp
    all_goals
      intro hmode
      cases hmode
  leaderMode hmode := by cases hmode
  remote _ p hp := by
    simp [RaftConsensus.init, PeerMessageQueue.init, PeerMessageQueue.trackPeer,
      PeerMessageQueue.setPeer, hp]
  notifications data hdata := by cases hdata
  leaderNotifications hl := by
    simp [RaftConsensus.init, RaftConsensus.isLeader, ReplicaState.isLeader] at hl

/-- The invariant holds at first. -/
lemma consistent_init : Consistent cfg (init : Cluster ι) := by
  -- there is no leader and no election at first
  have hleads : ∀ n T, ¬(init : Cluster ι).Leads Abstract.init n T := by
    rintro n T ⟨hT, -⟩
    exact hT
  have hraft : Raft.Inv cfg.voters opTerm (Abstract.init : Abstract ι) := by
    refine ⟨fun _ => Raft.wellFormed_nil, ?_, fun _ _ => rfl, fun _ => Raft.wellFormed_nil, ?_,
      fun _ _ => le_rfl, ?_, ?_, ?_, ?_, ?_⟩
    all_goals simp [Abstract.init]
  refine ⟨Abstract.init, fun _ => [], electionInv_init, hraft, fun _ => rfl, fun _ => rfl, ?_, ?_,
    ?_, fun n => nodeInv_init _ _ (hleads n) n, ?_, ?_, ?_, ?_, ?_⟩
  · intro T i m hm
    simp [Abstract.init] at hm
  · exact fun T hT => hT.elim
  · exact fun n T hl => absurd hl (hleads n T)
  · intro id e he
    cases he
  · intro id id' e e' he
    cases he
  · intro id c hc
    cases hc
  · intro n p id hp
    cases hp
  · intro id c hc
    cases hc

/-- A safe step keeps the invariant. -/
lemma Consistent.step {e : ClusterEvent ι} (h : Consistent cfg s) (hsafe : SafeStep cfg s e)
    (hs : Step cfg s e s') : Consistent cfg s' := by
  obtain ⟨a, cand, h⟩ := h
  -- most events start no election, and the candidates' logs stay as they are
  have hkeep : (∃ a', LogInv cfg s' a' cand) → Consistent cfg s' := by
    rintro ⟨a', h'⟩
    exact ⟨a', cand, h'⟩
  cases e with
  | tick d =>
    cases hs
    exact ⟨a, cand, h.tick d⟩
  | startElection n id ignoreLiveLeader preelection =>
    exact h.step_startElection (fun hpend => by cases hpend) hs
  | handleVoteRequest id voter updateBusy => exact hkeep (h.step_handleVoteRequest hsafe hs)
  | handleVoteReply id voter failed => exact ⟨a, cand, h.step_handleVoteReply hs⟩
  | electionCallback id newId ctx =>
    exact h.step_electionCallback (fun e he hpre => (hsafe e he hpre).pendingSafe) hs
  | appendNoOp n nowHt => exact hkeep (h.step_appendNoOp hs)
  | replicate n rounds => exact hkeep (h.step_replicate hs)
  | sendUpdate n peer id nowHt safeTime =>
    refine hkeep (h.step_sendUpdate (fun request queue hreq => ?_) hs)
    exact SafeRequest.isSlice hsafe (h.node n).sound.indexed hreq
  | updateNotSent n peer nowHt safeTime => exact hkeep (h.step_updateNotSent hs)
  | handleUpdate id numPrepared earlyCommit markCommitted tie =>
    exact hkeep (h.step_handleUpdate hs)
  | updateReturns id nowHt newId preelection ctx =>
    refine h.step_updateReturns ?_ hs
    intro c result hc hwait hstart
    exact hsafe c hc result (by simp [UpdateStatus.waiting?, hwait]) hstart rfl
  | handleUpdateReply id tie =>
    refine hkeep (h.step_handleUpdateReply ?_ hs)
    -- what the leader notes of the peer is in its log and in the peer's
    intro c response p hc hret hok hperf hp received hreceived
    exact h.noted hc hret hok hperf hp
      (hsafe c hc p hp response (by simp [UpdateStatus.returned?, hret]) hok) hreceived
  | updateFails id => exact hkeep (h.step_updateFails hs)
  | runNotification n ctx => exact hkeep (h.step_runNotification hs)
  | processBatch n => exact hkeep (h.step_processBatch hs)
  | groupWork n => exact hkeep (h.step_groupWork hs)
  | rollOver n =>
    cases hs
    exact hkeep h.step_rollOver
  | runCallback n tie => exact hkeep (h.step_runCallback hs)
  | evict n index =>
    cases hs
    exact hkeep h.step_evict
  | stepDown n newLeader id => exact hkeep (h.step_stepDown hs)
  | handleRunElection id newId preelection ctx =>
    exact h.step_handleRunElection (fun c op hc hop => hsafe c hc op hop) hs
  | crash n point recovered => exact hsafe.elim

/-- The invariant holds in every state of a run. -/
lemma consistent_of_run {es : List (ClusterEvent ι)}
    (h : Run (Restrict (SafeStep cfg) (Step cfg)) init es s) : Consistent cfg s :=
  h.invariant (fun _ _ _ hinv hstep => hinv.step hstep.1 hstep.2) consistent_init

/-! ## Agreement -/

/-- What two replicas have committed is part of one leader's log. -/
lemma LogInv.applied_prefix_logOf (h : LogInv cfg s a cand) (n m : ι) :
    ∃ T, (s.node n).state.applied <+: a.logOf T ∧ (s.node m).state.applied <+: a.logOf T := by
  have hel : ∀ {T i}, Raft.Chosen cfg.voters opTerm a T i → a.elected T := by
    intro T i hch
    by_contra hnot
    have hlt := hch.1.lt
    simp [h.raft.logOf_nil T hnot] at hlt
  rcases (h.node n).committed with hn | ⟨T, i, -, hch, hlen, hpfx⟩
  · rcases (h.node m).committed with hm | ⟨T', i', -, -, -, hpfx'⟩
    · exact ⟨0, hn ▸ List.nil_prefix, hm ▸ List.nil_prefix⟩
    · exact ⟨T', hn ▸ List.nil_prefix, hpfx'⟩
  rcases (h.node m).committed with hm | ⟨T', i', -, hch', hlen', hpfx'⟩
  · exact ⟨T, hpfx, hm ▸ List.nil_prefix⟩
  -- the leader of the later term has both
  rcases le_total T T' with hle | hle
  · exact ⟨T', h.prefix_of_committedLog (.inr ⟨T, i, hle, hch, hlen, hpfx⟩) (hel hch') le_rfl,
      hpfx'⟩
  · exact ⟨T, hpfx,
      h.prefix_of_committedLog (.inr ⟨T', i', hle, hch', hlen', hpfx'⟩) (hel hch) le_rfl⟩

/-- Committed operations with the same index are the same. -/
lemma Consistent.eq_of_index_eq (h : Consistent cfg s) {n m : ι} {x y : ReplicateMsg}
    (hx : x ∈ (s.node n).state.applied) (hy : y ∈ (s.node m).state.applied)
    (hidx : x.id.index = y.id.index) : x = y := by
  obtain ⟨a, cand, h⟩ := h
  obtain ⟨T, hn, hm⟩ := h.applied_prefix_logOf n m
  obtain ⟨i, hi⟩ := List.mem_iff_getElem?.1 hx
  obtain ⟨j, hj⟩ := List.mem_iff_getElem?.1 hy
  have hxi := (h.node n).sound.indexed_applied.index_eq hi
  have hyj := (h.node m).sound.indexed_applied.index_eq hj
  obtain rfl : i = j := by omega
  exact Option.some.inj ((hn.getElem?_eq_some hi).symm.trans (hm.getElem?_eq_some hj))

/-- Two replicas that have committed an operation at the same index have committed the same one, in
every state of every run of safe steps. -/
theorem log_agreement {es : List (ClusterEvent ι)}
    (h : Run (Restrict (SafeStep cfg) (Step cfg)) init es s) (n m : ι) (x y : ReplicateMsg)
    (hx : x ∈ (s.node n).state.applied) (hy : y ∈ (s.node m).state.applied)
    (hindex : x.id.index = y.id.index) : x.id = y.id := by
  rw [(consistent_of_run h).eq_of_index_eq hx hy hindex]

/-- Replica 0 is elected, replicates its first operation to replica 1, and both commit it. -/
def replicatedNoOp : List (ClusterEvent (Fin 3)) :=
  [.startElection 0 0 false false, .handleVoteRequest 0 1 false, .handleVoteReply 0 1 false,
    .electionCallback 0 9 {}, .appendNoOp 0 1,
    .sendUpdate 0 1 0 2 none, .handleUpdate 0 0 {} {} 0, .updateReturns 0 3 9 false {},
    .handleUpdateReply 0 0,
    .sendUpdate 0 1 1 4 none, .handleUpdate 1 1 {} {} 0,
    .processBatch 1, .groupWork 1, .updateReturns 1 5 9 false {},
    .processBatch 0, .groupWork 0, .runCallback 0 0, .handleUpdateReply 1 0,
    .runNotification 0 {}, .runNotification 0 {},
    .sendUpdate 0 1 2 6 none, .handleUpdate 2 0 {} {} 0]

omit [DecidableEq ι] in
/-- The operation that a replica has committed as its only one. -/
lemma exists_applied_of_map_id {r : RaftConsensus ι} {id : OpId}
    (h : r.state.applied.map (·.id) = [id]) : ∃ x ∈ r.state.applied, x.id = id := by
  have hmem : id ∈ r.state.applied.map (·.id) := by simp [h]
  obtain ⟨x, hx, hid⟩ := List.mem_map.1 hmem
  exact ⟨x, hx, hid⟩

theorem log_agreement_replicatedNoOp :
    ∃ s, Run (Restrict (SafeStep threeReplicas) (Step threeReplicas)) init replicatedNoOp s ∧
      ∃ x ∈ (s.node 0).state.applied, ∃ y ∈ (s.node 1).state.applied, x.id.index = y.id.index ∧
        x.id = y.id := by
  have hexec : ((Run.exec (restrict (SafeStep threeReplicas) (step threeReplicas)) init
      replicatedNoOp).map fun s => ((s.node 0).state.applied.map (·.id),
        (s.node 1).state.applied.map (·.id))) = some ([⟨1, 1⟩], [⟨1, 1⟩]) := by
    decide +kernel
  obtain ⟨s, hs, heq⟩ := Option.map_eq_some_iff.1 hexec
  obtain ⟨h₀, h₁⟩ := Prod.mk.inj heq
  obtain ⟨x, hx, hxid⟩ := exists_applied_of_map_id h₀
  obtain ⟨y, hy, hyid⟩ := exists_applied_of_map_id h₁
  have hidx : x.id.index = y.id.index := by rw [hxid, hyid]
  have hrun : Run (Restrict (SafeStep threeReplicas) (Step threeReplicas)) init replicatedNoOp s :=
    Run.of_exec_restrict hs
  exact ⟨s, hrun, x, hx, y, hy, hidx, log_agreement hrun 0 1 x y hx hy hidx⟩

/-- Replica 1 votes for replica 2 while it waits for its log to sync an operation of replica 0,
which it then acknowledges. -/
def lostCommit : List (ClusterEvent (Fin 3)) :=
  [.startElection 0 0 false false, .handleVoteRequest 0 1 false, .handleVoteReply 0 1 false,
    .electionCallback 0 9 {}, .appendNoOp 0 1,
    .sendUpdate 0 1 0 2 none, .handleUpdate 0 0 {} {} 0, .updateReturns 0 3 9 false {},
    .handleUpdateReply 0 0,
    .sendUpdate 0 1 1 4 none, .handleUpdate 1 1 {} {} 0,
    -- replica 1 has received the operation and not synced it, and votes for replica 2
    .startElection 2 1 true false, .startElection 2 2 true false, .handleVoteRequest 2 1 false,
    -- the operation is synced and acknowledged, and replica 0 commits it
    .processBatch 1, .groupWork 1, .runCallback 1 0, .updateReturns 1 5 9 false {},
    .processBatch 0, .groupWork 0, .runCallback 0 0, .handleUpdateReply 1 0,
    .runNotification 0 {}, .runNotification 0 {},
    -- replica 2 becomes leader, and commits its own operation at the same index
    .handleVoteReply 2 1 false, .electionCallback 2 9 {}, .appendNoOp 2 1,
    .sendUpdate 2 1 2 2 none, .handleUpdate 2 0 {} {} 0, .updateReturns 2 6 9 false {},
    .handleUpdateReply 2 0,
    .sendUpdate 2 1 3 7 none, .handleUpdate 3 1 {} {} 0,
    .processBatch 1, .groupWork 1, .updateReturns 3 8 9 false {},
    .processBatch 2, .groupWork 2, .runCallback 2 0, .handleUpdateReply 3 0,
    .runNotification 2 {}, .runNotification 2 {}]

/-- Replicas 0 and 2 have committed different operations at index 1. -/
theorem not_log_agreement_lostCommit :
    ∃ s, Run (Step threeReplicas) init lostCommit s ∧ ∃ x ∈ (s.node 0).state.applied,
      ∃ y ∈ (s.node 2).state.applied,
        x.id.index = y.id.index ∧ x.id ≠ y.id := by
  have hexec : ((Run.exec (step threeReplicas) init lostCommit).map fun s =>
      ((s.node 0).state.applied.map (·.id), (s.node 2).state.applied.map (·.id))) =
        some ([⟨1, 1⟩], [⟨2, 1⟩]) := by
    decide +kernel
  obtain ⟨s, hs, heq⟩ := Option.map_eq_some_iff.1 hexec
  obtain ⟨h₀, h₂⟩ := Prod.mk.inj heq
  obtain ⟨x, hx, hxid⟩ := exists_applied_of_map_id h₀
  obtain ⟨y, hy, hyid⟩ := exists_applied_of_map_id h₂
  refine ⟨s, Run.of_exec hs, x, hx, y, hy, ?_, ?_⟩
  · rw [hxid, hyid]
  · rw [hxid, hyid]
    decide

section Logs

variable {es : List (ClusterEvent ι)} (h : Run (Restrict (SafeStep cfg) (Step cfg)) init es s)
  (n m : ι)

include h

/-- Logs that have operations of one term at the same place agree up to it. -/
theorem log_matching {i : ℕ} {x y : ReplicateMsg} (hx : (s.node n).state.log[i]? = some x)
    (hy : (s.node m).state.log[i]? = some y) (hterm : x.id.term = y.id.term) :
    (s.node n).state.log.take (i + 1) = (s.node m).state.log.take (i + 1) := by
  obtain ⟨a, cand, h⟩ := consistent_of_run h
  rw [← h.log] at hx hy ⊢
  rw [← h.log]
  exact (h.raft.log_wf n).take_eq (h.raft.log_wf m) hx hy hterm

/-- A leader has all that a replica of its term, or of an earlier one, has committed. -/
theorem leader_completeness (hlead : (s.node m).isLeader m = true)
    (hterm : (s.node n).state.currentTerm ≤ (s.node m).state.currentTerm) :
    (s.node n).state.applied <+: (s.node m).state.log := by
  obtain ⟨a, cand, h⟩ := consistent_of_run h
  have hleads := (h.node m).leader hlead
  rw [((h.node m).leading hleads).2.1]
  exact h.prefix_of_committedLog (h.node n).committed hleads.1 hterm

end Logs

lemma exec_replicatedNoOp :
    ∃ s ∈ Run.exec (restrict (SafeStep threeReplicas) (step threeReplicas)) init replicatedNoOp,
      (s.node 0).isLeader 0 = true ∧ (s.node 1).state.currentTerm ≤ (s.node 0).state.currentTerm ∧
      (s.node 1).state.applied ≠ [] ∧ ∃ x ∈ (s.node 0).state.log[0]?, (s.node 1).state.log[0]? =
        some x := by
  decide +kernel

theorem log_matching_replicatedNoOp :
    ∃ s, Run (Restrict (SafeStep threeReplicas) (Step threeReplicas)) init replicatedNoOp s ∧
      (s.node 1).state.applied ≠ [] ∧
        (s.node 0).state.log.take 1 = (s.node 1).state.log.take 1 := by
  obtain ⟨s, hs, -, -, hne, x, hx, hy⟩ := exec_replicatedNoOp
  have hrun := Run.of_exec_restrict hs
  exact ⟨s, hrun, hne, log_matching hrun 0 1 hx hy rfl⟩

theorem leader_completeness_replicatedNoOp :
    ∃ s, Run (Restrict (SafeStep threeReplicas) (Step threeReplicas)) init replicatedNoOp s ∧
      (s.node 1).state.applied ≠ [] ∧ (s.node 1).state.applied <+: (s.node 0).state.log := by
  obtain ⟨s, hs, hlead, hterm, hne, -⟩ := exec_replicatedNoOp
  have hrun := Run.of_exec_restrict hs
  exact ⟨s, hrun, hne, leader_completeness hrun 1 0 hlead hterm⟩

end Cluster
