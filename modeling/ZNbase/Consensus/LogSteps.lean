import ZNbase.Consensus.NodeInvariant

/-!
# Steps of the replicated log

The invariant of the replicated log is kept by every step that is not about an election: by the
queues and the logs of the replicas, by the calls of leaders and the replies to them, by operations
that a leader appends or commits, and by updates of the other replicas.
-/

open Option Function List OpLog RaftConsensus Raft

namespace Cluster

open ReplicaState (Quiet)
open RaftConsensus (QueueKept SameRole)

variable {ι : Type} [DecidableEq ι] {cfg : ClusterConfig ι} {s s' : Cluster ι} {a a' : Abstract ι}
  {cand : ℕ → List ReplicateMsg} {n : ι} {T : ℕ} {voters : List ι} {leads : ℕ → Prop}

/-! ## The knowledge of a leader -/

omit [DecidableEq ι] in
/-- Only a voter wins an election. -/
lemma ElectionInv.mem_voters (h : ElectionInv cfg s) (hw : s.WonElection n T) : n ∈ cfg.voters := by
  obtain ⟨id, e, he, -, -, rfl, -⟩ := hw
  exact (h.counted id e he).candidate

/-- A replica that is alone has every operation that it ever had. -/
lemma LogInv.index_le_of_single (h : LogInv cfg s a cand) (hvoters : cfg.voters.length ≤ 1)
    {id : OpId} (hkno : Known a T id) (hT : a.elected T) : id.index ≤ (a.logOf T).length := by
  rcases hkno with rfl | ⟨hle, m, hm, hid⟩
  · exact Nat.zero_le _
  obtain ⟨i, hi⟩ := mem_iff_getElem?.1 hm
  have hidx : id.index = i + 1 := by rw [← hid, (h.indexed _).index_eq hi]
  have hlen : i < (a.logOf id.term).length := (List.getElem?_eq_some_iff.1 hi).1
  rcases hle.lt_or_eq with hlt | heq
  swap
  · rw [← heq]
    omega
  have hown : Own opTerm a id.term i := ⟨m, hi, congrArg OpId.term hid⟩
  rcases h.raft.elect id.term T i hlt hT hown with hpre | hdead
  · have := hpre.length_le
    rw [length_take] at this
    omega
  -- the only replica has acknowledged all operations of its own terms
  exfalso
  have hel : a.elected id.term := by
    by_contra hnot
    rw [h.raft.logOf_nil _ hnot] at hlen
    simp at hlen
  obtain ⟨-, c, hc⟩ := h.leader _ hel
  obtain ⟨v, hv, -, hacked⟩ := Majority.exists_mem hdead
  obtain rfl : v = c := by
    have hc' := h.election.mem_voters hc
    obtain ⟨x, hx⟩ := length_eq_one_iff.1 (le_antisymm hvoters (length_pos_of_mem hv))
    rw [hx, mem_singleton] at hv hc'
    rw [hv, hc']
  rw [h.acked v _ ⟨hel, hc⟩] at hacked
  omega

/-- If a majority of the voters has one of two properties, and only one voter has the first one,
then there is another voter, or no other voter exists. -/
lemma length_le_one_of_majority (hndp : voters.Nodup) {p : ι → Bool}
    (hcnt : majoritySize voters.length ≤ voters.countP p)
    (hp : ∀ u ∈ voters, p u = true → u = n) : voters.length ≤ 1 := by
  have hle : voters.countP p ≤ voters.countP (· == n) := by
    apply countP_mono_left
    intro u hu hpu
    simpa using hp u hu hpu
  have hone : voters.countP (· == n) ≤ 1 := nodup_iff_count_le_one.1 hndp n
  simp only [majoritySize] at hcnt
  omega

omit [DecidableEq ι] in
/-- What is known is not of a later term. -/
lemma knowledge_term_le {r : RaftConsensus ι} {id : OpId}
    (h : (knowledge voters a leads r).known id) : id.term ≤ (knowledge voters a leads r).term := by
  rcases h with rfl | ⟨hle, -⟩
  · exact Nat.zero_le _
  · exact hle

/-- What a replica knows is lawful. -/
lemma LogInv.lawful (h : LogInv cfg s a cand) (n : ι) (r : RaftConsensus ι) :
    (knowledge cfg.voters a (s.Leads a n) r).Lawful n cfg.voters := by
  refine ⟨.inl rfl, fun _ => knowledge_term_le, ?_⟩
  intro hleads p id hkno hcnt hremote
  set T := r.state.currentTerm with hT
  -- the leader itself has as many operations as any replica that has acknowledged them
  have hlen : id.index ≤ (a.logOf T).length := by
    by_cases hex : ∃ u ∈ cfg.voters, p u = true ∧ u ≠ n
    · obtain ⟨u, -, hpu, hu⟩ := hex
      exact (hremote u hu hpu).trans (h.raft.acked_le u T)
    · refine h.index_le_of_single (length_le_one_of_majority (n := n) cfg.nodup hcnt ?_) hkno
        hleads.1
      intro u hu hpu
      by_contra hne
      exact hex ⟨u, hu, hpu, hne⟩
  simp only [majoritySize] at hcnt
  refine ⟨hkno, .inr (Majority.of_countP (p := p) (by omega) ?_)⟩
  intro u _ hpu
  by_cases hu : u = n
  · subst hu
    rw [h.acked u _ hleads]
    exact hlen
  · exact hremote u hu hpu

/-! ## Steps of the queue and of the log -/

variable {r : RaftConsensus ι} {l : List ReplicateMsg} {index id : ℕ} {nowHt : HybridTime}
  {ctx : ApplyContext} {r' : RaftConsensus ι}

section

variable (h : LogInv cfg s a cand) {peer : ι} {safeTime : Option HybridTime}

include h

/-- The queue, the log or the clock of a replica changes. -/
lemma LogInv.of_queueKept
    (hkept : QueueKept (knowledge cfg.voters a (s.Leads a n) (s.node n)) n (s.node n) r)
    (hst : r.state = (s.node n).state) : ∃ a', LogInv cfg (s.setNode n r) a' cand := by
  refine h.setNode_of_state_eq hst ((h.node n).of_queueKept hkept hst) ?_
  rw [hkept.role.performing]
  exact fun _ _ => id

/-- Time goes on. -/
lemma LogInv.tick (d : ℕ) : LogInv cfg { s with time := s.time + d } a cand :=
  { h with
    election := h.election.of_quiet (fun _ _ _ hc => hc) (fun _ _ hw => hw) (fun n => .refl n _)
      h.election.counted h.election.caller
    candidate := fun id e he hpre => { h.candidate id e he hpre with }
    update := fun id c hc => { h.update id c hc with } }

/-- The appender of a replica writes a batch. -/
lemma LogInv.step_processBatch (hs : s.onNode n processBatch = some s') :
    ∃ a', LogInv cfg s' a' cand := by
  obtain ⟨r, hr, rfl⟩ := map_eq_some_iff.1 hs
  obtain ⟨log, hlog, rfl⟩ := map_eq_some_iff.1 hr
  refine h.of_queueKept ⟨(h.node n).queue.of_callbacks ?_, .refl _, ⟨rfl, rfl, rfl⟩⟩ rfl
  rw [Log.pendingCallbacks_processBatch hlog]
  exact fun _ => id

/-- The appender syncs what it has written. -/
lemma LogInv.step_groupWork (hs : s.onNode n groupWork = some s') :
    ∃ a', LogInv cfg s' a' cand := by
  obtain ⟨r, hr, rfl⟩ := map_eq_some_iff.1 hs
  obtain ⟨log, hlog, rfl⟩ := map_eq_some_iff.1 hr
  refine h.of_queueKept ⟨(h.node n).queue.of_callbacks ?_, .refl _, ⟨rfl, rfl, rfl⟩⟩ rfl
  rw [Log.pendingCallbacks_groupWork hlog]
  exact fun _ => id

/-- The log of a replica goes on in a new segment. -/
lemma LogInv.step_rollOver : ∃ a', LogInv cfg (s.setNode n (s.node n).rollOver) a' cand :=
  h.of_queueKept ⟨(h.node n).queue.of_callbacks fun _ => id, .refl _, ⟨rfl, rfl, rfl⟩⟩ rfl

/-- The callback of a finished append runs. -/
lemma LogInv.step_runCallback {tie : ℕ}
    (hs : s.onNode n (fun r => r.runCallback n cfg.toRaftConfig tie) = some s') :
    ∃ a', LogInv cfg s' a' cand := by
  obtain ⟨r, hr, rfl⟩ := map_eq_some_iff.1 hs
  simp only [runCallback] at hr
  split at hr
  · cases hr
  rename_i c log hcb
  obtain ⟨queue, hque, rfl⟩ := map_eq_some_iff.1 hr
  have hpend := Log.pendingCallbacks_takeCallback hcb
  have hinv :
      QueueInv (knowledge cfg.voters a (s.Leads a n) (s.node n)) n (s.node n).queue log := by
    refine (h.node n).queue.of_callbacks ?_
    rw [hpend]
    exact fun _ => mem_cons_of_mem _
  obtain ⟨hinv', hstep⟩ := hinv.appendFinished (h.lawful n _)
    ((h.node n).queue.callbacks c (by rw [hpend]; exact mem_cons_self)) hque
  exact h.of_queueKept ⟨hinv', hstep, ⟨rfl, rfl, rfl⟩⟩ rfl

/-- Operations are evicted from the cache of a replica. -/
lemma LogInv.step_evict : ∃ a', LogInv cfg (s.setNode n { s.node n with
      queue := { (s.node n).queue with
        logCache := (s.node n).queue.logCache.evictThroughOp index } }) a' cand :=
  h.of_queueKept ⟨(h.node n).queue.of_eq rfl rfl rfl rfl rfl, .of_eq rfl rfl (fun _ => .rfl) rfl,
    ⟨rfl, rfl, rfl⟩⟩ rfl

/-! ## Calls of a leader -/

/-- A leader sends a slice of its log. -/
lemma LogInv.step_sendUpdate
    (hsafe : ∀ request queue, (s.node n).queue.requestForPeer cfg.flags n peer (s.node n).log
      (s.now cfg n) nowHt safeTime = .ok (request, queue) →
      IsSlice (s.node n).state.log request.precedingId request.ops)
    (hs : s.sendUpdate cfg n peer id nowHt safeTime = some s') : ∃ a', LogInv cfg s' a' cand := by
  simp only [sendUpdate] at hs
  split_ifs at hs with hguard
  obtain ⟨-, hpeer, -, hfresh⟩ := hguard
  split at hs
  · cases hs
  rename_i request queue hreq
  cases hs
  have hslice := hsafe request queue hreq
  obtain ⟨p, hrequested⟩ := PeerMessageQueue.requestForPeer_spec hreq
  have hcaller := hrequested.caller.1
  obtain ⟨hinv, hstep, hmode, -, hterm, hcom⟩ := (h.node n).queue.requestForPeer hreq
  obtain ⟨hlead, hque⟩ := (h.node n).leaderMode hmode
  have hleads := (h.node n).leader hlead
  obtain ⟨-, hlog, -⟩ := (h.node n).leading hleads
  -- the call first, so that the replica can wait for it
  have hcall : UpdateInv cfg.voters s a { dest := peer, request := request } := by
    refine ⟨?_, ?_, ?_, by simp [UpdateRpc.reported]⟩
    · rw [hcaller, hterm]
      exact hleads
    · rw [hterm]
      exact hlog ▸ hslice
    · rw [hterm]
      have hle := hcom.trans hque
      rcases (h.node n).committed with hnil | ⟨T', i, hT', hch, hlen, -⟩
      · rw [hnil] at hle
        exact .inl (Nat.le_zero.1 hle)
      · exact .inr ⟨T', i, hT', hch, hle.trans hlen⟩
  have hne : request.callerUuid ≠ peer := by
    rw [hcaller]
    exact hpeer.symm
  have h₁ : LogInv cfg (s.setUpdateRpc id { dest := peer, request := request }) a cand :=
    h.setUpdateRpc hcall hne (by simp [hfresh])
  have hkept : QueueKept (knowledge cfg.voters a (s.Leads a n) (s.node n)) n (s.node n)
      { s.node n with queue := queue } := ⟨hinv, hstep, ⟨rfl, rfl, rfl⟩⟩
  set r : RaftConsensus ι :=
    { s.node n with
      queue := queue
      clock := nowHt
      performing := Function.update (s.node n).performing peer (some id) } with hr
  have hnode : NodeInv cfg.voters a (s.Leads a n) n r :=
    ((h.node n).of_queueKept hkept rfl).of_eq rfl rfl rfl rfl rfl
  refine ⟨_, h₁.setNode le_rfl rfl ?_ hnode ?_⟩
  · exact h₁.election.setNode_of_state_eq rfl
  · intro p id' hp
    refine ⟨hlead, ?_⟩
    simp only [hr, update_eq_some_iff] at hp
    rcases hp with ⟨rfl, rfl⟩ | ⟨-, hp⟩
    · exact ⟨{ dest := p, request := request }, update_self .., rfl, hcaller, hterm⟩
    · exact (h₁.performing n p id' hp).2

/-- A request is made and not sent. -/
lemma LogInv.step_updateNotSent
    (hs : s.updateNotSent cfg n peer nowHt safeTime = some s') : ∃ a', LogInv cfg s' a' cand := by
  simp only [updateNotSent] at hs
  split_ifs at hs with hguard
  cases hs
  cases hreq : (s.node n).queue.requestForPeer cfg.flags n peer (s.node n).log (s.now cfg n)
      nowHt safeTime with
  | error e =>
    obtain ⟨hinv, hstep⟩ := (h.node n).queue.requestForPeerFailed cfg.flags peer (s.now cfg n) nowHt
    exact h.of_queueKept ⟨hinv, hstep, ⟨rfl, rfl, rfl⟩⟩ rfl
  | ok r =>
    obtain ⟨hinv₁, hstep₁, -⟩ := (h.node n).queue.requestForPeer hreq
    obtain ⟨hinv, hstep⟩ := hinv₁.requestWasNotSent peer
    exact h.of_queueKept ⟨hinv, hstep₁.trans hstep, ⟨rfl, rfl, rfl⟩⟩ rfl

/-- The operations of a replica's log are known. -/
lemma LogInv.known_of_mem_log {m : ReplicateMsg}
    (hm : m ∈ (s.node n).state.log) : Known a (s.node n).state.currentTerm m.id := by
  rw [← h.log n] at hm
  refine .inr ⟨?_, m, ?_, rfl⟩
  · rw [← h.term n]
    exact h.raft.log_term n m hm
  · exact (h.raft.log_wf n).mem_logOf hm

end

/-- A call that is no longer performed leaves the others. -/
lemma performing_of_update_none {dest p : ι}
    (hp : Function.update (s.node n).performing dest none p = some id) :
    (s.node n).performing p = some id := by
  by_cases hd : p = dest
  · subst hd
    simp at hp
  · rwa [update_of_ne hd] at hp

section

variable (h : LogInv cfg s a cand)

include h

/-- The reply of a replica. What the leader notes has to be right. -/
lemma LogInv.step_handleUpdateReply {tie : ℕ}
    (hnoted : ∀ c response p, s.updateRpcs id = some c → c.status = .returned response →
      response.status.error = none →
      (s.node c.request.callerUuid).performing c.dest = some id →
      (s.node c.request.callerUuid).queue.peers c.dest = some p →
      ∀ received, received = ((s.node c.request.callerUuid).queue.updateFromStatus
          (s.node c.request.callerUuid).log p response.status).lastReceived →
        Known a (s.node c.request.callerUuid).state.currentTerm received ∧
          received.index ≤ a.acked c.dest (s.node c.request.callerUuid).state.currentTerm)
    (hs : s.handleUpdateReply cfg id tie = some s') : ∃ a', LogInv cfg s' a' cand := by
  simp only [handleUpdateReply] at hs
  split at hs
  · cases hs
  rename_i c hc
  split at hs
  swap
  · cases hs
  rename_i response hresp
  set n := c.request.callerUuid with hn
  split_ifs at hs with hperf hprep
  · -- the call is for another term, or the peer was not ready
    cases hs
    exact h.setNode_of_state_eq rfl ((h.node n).of_eq rfl rfl rfl rfl rfl)
      fun _ _ => performing_of_update_none
  obtain ⟨queue, hque, rfl⟩ := map_eq_some_iff.1 hs
  -- the queue notes what the peer has, which is in the leader's log
  obtain ⟨hinv, hstep⟩ := (h.node n).queue.responseFromPeer (h.lawful n _)
    (fun p hself => absurd hself.symm (h.election.caller id c hc))
    (fun p _ hp hok => hnoted c response p hc hresp hok hperf hp _ rfl) hque
  have hkept : QueueKept (knowledge cfg.voters a (s.Leads a n) (s.node n)) n (s.node n)
      { s.node n with queue := queue } := ⟨hinv, hstep, ⟨rfl, rfl, rfl⟩⟩
  exact h.setNode_of_state_eq rfl (((h.node n).of_queueKept hkept rfl).of_eq rfl rfl rfl rfl rfl)
    fun _ _ => performing_of_update_none

/-- A leader learns that an update has failed. -/
lemma LogInv.step_updateFails (hs : s.updateFails id = some s') : ∃ a', LogInv cfg s' a' cand := by
  simp only [updateFails] at hs
  split at hs
  · cases hs
  split_ifs at hs with hperf
  cases hs
  exact h.setNode_of_state_eq rfl ((h.node _).of_eq rfl rfl rfl rfl rfl) fun _ _ =>
    performing_of_update_none

/-! ## Committing on a leader -/

/-- From an operation of its own term on, all operations of a leader are of its term. -/
lemma LogInv.term_eq_of_le {i j : ℕ} {x m : ReplicateMsg} (hij : i ≤ j)
    (hx : (a.logOf T)[i]? = some x) (hxT : x.id.term = T) (hm : (a.logOf T)[j]? = some m) :
    m.id.term = T := by
  refine le_antisymm (h.raft.logOf_term T m (mem_of_getElem? hm)) ?_
  have hmem : x ∈ a.logOf m.id.term := by
    refine (h.raft.logOf_wf T j m hm).2.subset (mem_of_getElem? (i := i) ?_)
    rw [getElem?_take_of_lt (by omega)]
    exact hx
  rw [← hxT]
  exact h.raft.logOf_term _ x hmem

/-- The operation up to which a leader commits is one of its own term. -/
lemma LogInv.own_of_replicated (hleads : s.Leads a n (s.node n).state.currentTerm) {id : OpId}
    (hpos : 0 < id.index) (hkno : Known a (s.node n).state.currentTerm id)
    (hlen : id.index ≤ (a.logOf (s.node n).state.currentTerm).length)
    (happl : (s.node n).state.applied.length ≤ id.index)
    (hrule : (s.node n).state.lastCommittedOpId.term = (s.node n).state.currentTerm ∨
      id.term = (s.node n).state.currentTerm) :
    Own opTerm a (s.node n).state.currentTerm (id.index - 1) := by
  obtain ⟨-, hlog, -⟩ := (h.node n).leading hleads
  obtain ⟨hT, -⟩ := h.leader _ hleads.1
  set T := (s.node n).state.currentTerm
  obtain ⟨m, hm⟩ : ∃ m, (a.logOf T)[id.index - 1]? = some m :=
    ⟨_, getElem?_eq_getElem (by omega)⟩
  refine ⟨m, hm, ?_⟩
  rcases hrule with hcom | hterm
  · -- the last committed operation is of the leader's term
    rw [(h.node n).sound.lastCommitted] at hcom
    have hne : (s.node n).state.applied ≠ [] := by
      intro hnil
      rw [hnil, lastId_nil] at hcom
      simp only [OpId.min0] at hcom
      omega
    obtain ⟨x, hx, hlast⟩ := exists_getElem?_of_lastId hne
    rw [hlast] at hcom
    refine h.term_eq_of_le (i := (s.node n).state.applied.length - 1) (by omega) ?_
      hcom hm
    rw [← hlog]
    exact (s.node n).state.applied_prefix_log.getElem?_eq_some hx
  · rcases hkno with rfl | ⟨-, m', hm', hid⟩
    · simp only [OpId.min0] at hpos
      omega
    rw [hterm] at hm'
    obtain ⟨i, hi⟩ := mem_iff_getElem?.1 hm'
    have hidx : id.index = i + 1 := by rw [← hid, (h.indexed T).index_eq hi]
    rw [hidx, Nat.add_sub_cancel, hi] at hm
    cases hm
    change m.id.term = T
    rw [hid, hterm]

/-- What a leader commits was chosen. -/
lemma LogInv.committedLog_of_replicated
    (hleads : s.Leads a n (s.node n).state.currentTerm) {id : OpId} {st : ReplicaState ι}
    (hrep : (knowledge cfg.voters a (s.Leads a n) (s.node n)).replicated id)
    (hrule : (s.node n).state.lastCommittedOpId.term = (s.node n).state.currentTerm ∨
      id.term = (s.node n).state.currentTerm)
    (hadv : (s.node n).state.Advances st id.index) :
    CommittedLog cfg.voters a (s.node n).state.currentTerm st.applied := by
  obtain ⟨-, hlog, -⟩ := (h.node n).leading hleads
  obtain ⟨hkno, hrep⟩ := hrep
  -- nothing new is committed
  have hsame : st.applied = (s.node n).state.applied →
      CommittedLog cfg.voters a (s.node n).state.currentTerm st.applied := by
    intro heq
    rw [heq]
    exact (h.node n).committed
  rcases hadv.le with heq | hle
  · exact hsame heq
  rcases hrep with hold | hmaj
  · exact hsame (hadv.applied.eq_of_length_le (hle.trans hold)).symm
  rcases Nat.eq_zero_or_pos id.index with hzero | hpos
  · exact .inl (length_eq_zero_iff.1 (by omega))
  -- a majority has the operation, which is of the leader's own term
  obtain ⟨v, -, hv⟩ := hmaj.exists_mem
  have hown := h.own_of_replicated hleads hpos hkno (hv.trans (h.raft.acked_le v _))
    (hadv.applied.length_le.trans hle) hrule
  refine .inr ⟨_, id.index - 1, le_rfl, ⟨hown, hmaj.mono ?_⟩, by omega, ?_⟩
  · omega
  · rw [← hlog, ← hadv.log]
    exact st.applied_prefix_log

/-- Nobody leads in a term that it has not reached. -/
lemma LogInv.not_leads_of_lt (hlt : (s.node n).state.currentTerm < T) : ¬s.Leads a n T := by
  rintro ⟨-, id, e, he, hpre, hterm, hcand, -⟩
  have := (h.election.cast n T n ⟨id, e, he, hpre, hterm, hcand, .inl hcand.symm⟩).1
  omega

end

omit [DecidableEq ι] in
/-- The leases are not part of the operations of a replica. -/
lemma sameOps_setMajorityReplicatedLeases (cfg : ClusterConfig ι) (r : RaftConsensus ι)
    (data : MajorityReplicatedData) :
    SameOps r.state (r.setMajorityReplicatedLeases cfg.toRaftConfig data) :=
  ⟨rfl, rfl, rfl, rfl, rfl, rfl, rfl, rfl⟩

/-- A leader handles a notification of what a majority has. -/
lemma LogInv.nodeInv_updateMajorityReplicated (h : LogInv cfg s a cand) {x : Notification}
    {rest : List Notification} (hx : (s.node n).queue.notifications = x :: rest)
    {data : MajorityReplicatedData} (hdata : x = .majorityReplOpChange data)
    (hr : ((s.node n).withQueue { (s.node n).queue with
      notifications := rest }).updateMajorityReplicated n cfg.toRaftConfig data ctx = some r) :
    NodeInv cfg.voters a (s.Leads a n) n r ∧ r.state.log = (s.node n).state.log ∧
      r.performing = (s.node n).performing := by
  obtain ⟨hpop, hnext⟩ := (h.node n).popNotification hx
  set r₁ := (s.node n).withQueue { (s.node n).queue with notifications := rest } with hr₁
  simp only [updateMajorityReplicated] at hr
  split_ifs at hr with hlead
  swap
  · obtain rfl := Option.some.inj hr
    exact ⟨hpop, rfl, rfl⟩
  -- the state after the commit
  have hcmt : ∀ {ok state}, (r₁.setMajorityReplicatedLeases cfg.toRaftConfig
      data).updateMajorityReplicated ctx data.opId = some (ok, state) →
      NodeInv cfg.voters a (s.Leads a n) n { r₁ with state := state } ∧
        state.log = (s.node n).state.log := by
    intro ok state hst
    have hleases := sameOps_setMajorityReplicatedLeases cfg r₁ data
    simp only [ReplicaState.updateMajorityReplicated] at hst
    split_ifs at hst with hrule
    · have hmeta := ReplicaState.metadata_advanceCommittedOpId hst
      have hs₀ := (hleases.advances 0).sound hpop.sound
      have hadv := ReplicaState.advances_advanceCommittedOpId hs₀ hst
      have hadv' : (s.node n).state.Advances state data.opId.index :=
        ⟨hadv.log, hadv.applied, hadv.le, fun _ => hadv.sound hs₀⟩
      have hrep := (hnext hlead data hdata).resolve_left fun hold => by
        rcases hrule with hrule | hrule
        · exact hold.2.ne hrule
        · exact hold.1.ne hrule
      have hcom := h.committedLog_of_replicated ((h.node n).leader hlead) hrep.1 hrule hadv'
      exact ⟨hpop.commit (hmeta.trans rfl) hadv' hcom fun _ => hrep.2, hadv'.log⟩
    · cases hst
      exact ⟨hpop.of_sameOps hleases, hleases.log⟩
  split at hr
  · cases hr
  · rename_i state hst
    cases hr
    exact ⟨(hcmt hst).1, (hcmt hst).2, rfl⟩
  rename_i state hst
  obtain ⟨hnode, hlog⟩ := hcmt hst
  obtain ⟨r₂, hwrite, rfl⟩ := map_eq_some_iff.1 hr
  have hst₂ : r₂.state = state := state_writeCommittedOpId hwrite
  have hkept : QueueKept (knowledge cfg.voters a (s.Leads a n) { r₁ with state := state }) n
      { r₁ with state := state } r₂ := by
    simp only [writeCommittedOpId] at hwrite
    split_ifs at hwrite
    · obtain ⟨⟨queue, log⟩, happ, rfl⟩ := map_eq_some_iff.1 hwrite
      obtain ⟨hinv, hstep⟩ := hnode.queue.appendOperations (h.lawful n _).term_le (by simp) happ
      exact ⟨hinv, hstep, ⟨rfl, rfl, rfl⟩⟩
    · cases hwrite
      exact .of_eq hnode.queue rfl rfl (.refl _)
  have hnode₂ := hnode.of_queueKept hkept hst₂
  refine ⟨hnode₂.raiseCommitted ?_, ?_, hkept.role.performing⟩
  · rw [hst₂, hnode.sound.lastCommitted_index]
  · rw [hst₂]
    exact hlog

/-- A new term ends the calls of a leader. -/
lemma performing_handleTermAdvance {p : ι}
    (hlead : ∀ p id, r.performing p = some id → r.isLeader n = true)
    (h : (r.handleTermAdvance n T).performing p = some id) :
    r.handleTermAdvance n T = r ∧ r.performing p = some id := by
  rw [handleTermAdvance] at h ⊢
  split_ifs at h ⊢ with hle hl
  · exact ⟨rfl, h⟩
  · cases h
  · exact absurd (hlead p id h) hl

/-- A later term does not change the log. -/
lemma log_handleTermAdvance (r : RaftConsensus ι) :
    (r.handleTermAdvance n T).state.log = r.state.log := by
  rw [handleTermAdvance]
  split_ifs <;> rfl

section

variable (h : LogInv cfg s a cand) {rounds : List NewRound}

include h

/-- A replica whose state has not changed yet takes over a term. -/
lemma LogInv.handleTermAdvance (hnode : NodeInv cfg.voters a (s.Leads a n) n r)
    (hst : r.state = (s.node n).state) (hperf : r.performing = (s.node n).performing)
    (hnoOp : r.noOpPending = false) (T : ℕ) :
    ∃ a', LogInv cfg (s.setNode n (r.handleTermAdvance n T)) a' cand := by
  have hqui := r.quiet_handleTermAdvance n T
  rw [hst] at hqui
  have hnode' := hnode.handleTermAdvance (T := T) hnoOp fun hlt =>
    h.not_leads_of_lt (hst ▸ hlt)
  refine ⟨_, h.setNode hqui.term_le ?_ (h.election.setNode hqui) hnode' ?_⟩
  · rw [log_handleTermAdvance, hst]
  · intro p id hp
    -- calls are performed by a leader, and none is one in a later term
    have hl : ∀ p id, r.performing p = some id → r.isLeader n = true := by
      intro p id hp
      rw [hperf] at hp
      rw [isLeader, hst]
      exact (h.performing n p id hp).1
    obtain ⟨heq, hp'⟩ := performing_handleTermAdvance hl hp
    rw [hperf] at hp'
    rw [heq, isLeader, hst]
    exact h.performing n p id hp'

/-- A notification of the queue is handled. -/
lemma LogInv.step_runNotification (hs : s.onNode n (fun r => if r.noOpPending then none
      else r.runNotification n cfg.toRaftConfig ctx) = some s') : ∃ a', LogInv cfg s' a' cand := by
  obtain ⟨r, hr, rfl⟩ := map_eq_some_iff.1 hs
  beta_reduce at hr
  split_ifs at hr with hnoOp
  have hqui := quiet_runNotification hr
  simp only [runNotification] at hr
  split at hr
  · cases hr
  rename_i x rest hx
  obtain ⟨hpop, -⟩ := (h.node n).popNotification hx
  split_ifs at hr with hregistered
  · split at hr
    · -- a majority has more operations
      have hmeta := metadata_updateMajorityReplicated hr
      simp only [ReplicaState.metadata, Prod.mk.injEq] at hmeta
      obtain ⟨hterm, -, hlead, -⟩ := hmeta
      obtain ⟨hnode, hlog, hperf⟩ := h.nodeInv_updateMajorityReplicated hx rfl hr
      refine ⟨_, h.setNode hqui.term_le hlog (h.election.setNode hqui) hnode ?_⟩
      intro p id hp
      rw [hperf] at hp
      rw [isLeader, ReplicaState.isLeader, hlead, hterm]
      exact h.performing n p id hp
    · cases hr
      -- a peer is in a later term
      have hnoOp' : (s.node n).noOpPending = false := by simpa using hnoOp
      exact h.handleTermAdvance hpop rfl rfl hnoOp' _
  · cases hr
    refine ⟨_, h.setNode le_rfl rfl (h.election.setNode hqui) hpop ?_⟩
    exact fun p id hp => h.performing n p id hp

/-- A leader steps down, and tells another replica what it has committed. -/
lemma LogInv.step_stepDown {newLeader : Option ι}
    (hs : s.stepDown n newLeader id = some s') : ∃ a', LogInv cfg s' a' cand := by
  simp only [stepDown] at hs
  split_ifs at hs with hguard
  have hqui := (s.node n).quiet_becomeReplica n
  -- the leader becomes a follower, and performs no more calls
  have h₁ := h.setNode (r := (s.node n).becomeReplica n) le_rfl rfl (h.election.setNode hqui)
    (h.node n).becomeReplica (by
      intro p id hp
      simp [becomeReplica] at hp)
  split at hs
  · cases hs
    exact ⟨_, h₁⟩
  cases hs
  refine ⟨_, h₁.setRunElectionRpc ?_⟩
  rintro op hop
  obtain rfl : (s.node n).state.lastCommittedOpId = op := by simpa using hop
  have hsnd := (h.node n).sound
  -- what it asks the new leader to have committed is committed
  rcases (h.node n).committed with hnil | ⟨T', i, hT', hch, hlen, hpfx⟩
  · left
    rw [hsnd.lastCommitted_index, hnil, length_nil]
  rcases Nat.eq_zero_or_pos (s.node n).state.lastCommittedOpId.index with hzero | hpos
  · exact .inl hzero
  have hidx := hsnd.lastCommitted_index
  have hne : (s.node n).state.applied ≠ [] := by
    intro hnil
    rw [hnil, length_nil] at hidx
    omega
  obtain ⟨m, hm, hid⟩ := exists_getElem?_of_lastId hne
  refine .inr ⟨T', i, hT', hch, hidx ▸ hlen, m, ?_, ?_⟩
  · rw [hidx]
    exact hpfx.getElem?_eq_some hm
  · rw [hsnd.lastCommitted, hid]

/-! ## Operations of a leader -/

/-- The leader of a term has a longer log. -/
lemma LogInv.append {msgs : List ReplicateMsg}
    (hleads : s.Leads a n (s.node n).state.currentTerm)
    (hmsgs : ∀ m ∈ msgs, m.id.term = (s.node n).state.currentTerm)
    (hterm : r'.state.currentTerm = (s.node n).state.currentTerm)
    (hlog : r'.state.log = (s.node n).state.log ++ msgs) (hqui : Quiet n (s.node n).state r'.state)
    (hnode : NodeInv cfg.voters (a.append n (s.node n).state.currentTerm msgs) (s.Leads a n) n r')
    (hperf : s.Performing n r') :
    LogInv cfg (s.setNode n r') (a.append n (s.node n).state.currentTerm msgs) cand := by
  set T := (s.node n).state.currentTerm with hT
  obtain ⟨-, hlogOf, -⟩ := (h.node n).leading hleads
  have hraft : Inv cfg.voters opTerm (a.append n T msgs) :=
    h.raft.append hleads.1 (h.term n) ((h.log n).trans hlogOf) hmsgs
  have hself := s.setNode_node_self n r'
  have hg : Grows s (s.setNode n r') a (a.append n T msgs) n := by
    refine ⟨h.raft.le_append hmsgs, fun m hm => s.setNode_node_of_ne hm r', fun _ _ hw => hw,
      fun _ => .inl, ?_⟩
    intro T'
    by_cases hTT : T' = T
    · subst hTT
      exact .inr hleads.2
    · exact .inl (append_logOf_of_ne hTT)
  refine h.of_grows_of_elections_eq hg (h.election.setNode hqui) hraft ?_ ?_ ?_ ?_ ?_ ?_ rfl rfl
    rfl ?_ rfl rfl ?_
  · rw [hself, hterm]
    exact h.term n
  · rw [hself, hlog, ← h.log n]
    exact append_log_self
  · exact fun m hm => ⟨rfl, append_log_of_ne hm⟩
  · -- only the log of this term has changed, and it is what the leader has
    intro T'
    by_cases hTT : T' = T
    · rw [hTT, append_logOf_self, ← hlogOf, ← hlog]
      exact hnode.sound.indexed
    · rw [append_logOf_of_ne hTT]
      exact h.indexed T'
  · intro T' hl
    by_cases hTT : T' = T
    · rw [hTT, append_acked_self, append_logOf_self, length_append]
    · rw [append_acked_of_ne fun hc => hTT hc.2, append_logOf_of_ne hTT]
      exact h.acked n T' hl
  · rw [hself]
    exact hnode
  · rw [hself, hterm]
    exact absurd hleads.1
  · rw [hself]
    exact hperf

omit h [DecidableEq ι] in
/-- The last operation is of the term if the new ones are, or if there are none and it was. -/
lemma lastId_append_of_term {msgs : List ReplicateMsg} (hidx : Indexed (l ++ msgs))
    (hmsgs : ∀ m ∈ msgs, m.id.term = T) (hlast : msgs = [] → lastId l = ⟨T, l.length⟩) :
    lastId (l ++ msgs) = ⟨T, (l ++ msgs).length⟩ := by
  refine OpId.ext ?_ hidx.lastId_index
  rcases eq_nil_or_concat msgs with hnil | ⟨msgs', m, hcat⟩
  · rw [hnil, append_nil, hlast hnil]
  · rw [concat_eq_append] at hcat
    rw [hcat, ← append_assoc, lastId_append_singleton]
    exact hmsgs m (by simp [hcat])

/-- The leader of a term appends operations. -/
lemma LogInv.appendNewRoundsToQueue {now : CoarseTimePoint}
    (hr : r.appendNewRoundsToQueue n cfg.toRaftConfig now rounds = some r')
    (hleads : s.Leads a n (s.node n).state.currentTerm) (hst : r.state = (s.node n).state)
    (hque : r.queue = (s.node n).queue) (hlogs : r.log = (s.node n).log)
    (hbnd : r.boundTerm = (s.node n).boundTerm)
    (hperf : r.performing = (s.node n).performing) (hnoOp : r.noOpPending = false)
    (hrounds : (s.node n).noOpPending = false ∨
      rounds ≠ [] ∧ ∀ round ∈ rounds, round.opType = .noOp) :
    ∃ a', LogInv cfg (s.setNode n r') a' cand := by
  set T := (s.node n).state.currentTerm with hT
  obtain ⟨-, hlog, hlast⟩ := (h.node n).leading hleads
  have hmeta := metadata_appendNewRoundsToQueue hr
  rw [hst] at hmeta
  have hterm' : r'.state.currentTerm = T := congrArg Prod.fst hmeta
  have hlead' : r'.state.leaderUuid = (s.node n).state.leaderUuid :=
    congrArg (fun x => x.2.2.1) hmeta
  obtain ⟨msgs, hlog', happl', hmsgs, hsnd', hlen, happ⟩ :=
    appendNewRoundsToQueue_spec (hst ▸ (h.node n).sound)
      (hrounds.imp (fun hp => by rw [hst]; exact hlast hp) (·.2)) hr
  rw [hst] at hlog' happl' hmsgs happ
  rw [hque, hlogs] at happ
  set a' := a.append n T msgs with ha'
  have hle : Le opTerm a a' := h.raft.le_append hmsgs
  have hlogOf : r'.state.log = a'.logOf T := by
    rw [append_logOf_self, hlog', hlog]
  -- a leader that has not appended its no-op yet appends it now
  have hlast' : lastId r'.state.log = ⟨T, r'.state.log.length⟩ := by
    rw [hlog']
    refine lastId_append_of_term (hlog' ▸ hsnd'.indexed) hmsgs fun hnil => ?_
    rcases hrounds with hp | ⟨hne, hop⟩
    · exact hlast hp
    · have hzero := hlen hop
      rw [hnil] at hzero
      exact absurd (length_eq_zero_iff.1 hzero.symm) hne
  have hkno : ∀ m ∈ msgs, (knowledge cfg.voters a' (s.Leads a n) r').known m.id := by
    intro m hm
    have hmT := hmsgs m hm
    refine .inr ⟨by rw [hmT, hterm'], m, ?_, rfl⟩
    rw [hmT, append_logOf_self]
    exact mem_append_right _ hm
  have hque₀ : QueueInv (knowledge cfg.voters a' (s.Leads a n) r') n (s.node n).queue
      (s.node n).log :=
    (h.node n).queue.mono (knowledge_le hle hterm' (by rw [happl']) id)
  obtain ⟨queue, log, hinv, hstep, heq⟩ : ∃ queue log,
      QueueInv (knowledge cfg.voters a' (s.Leads a n) r') n queue log ∧
      QueueStep (knowledge cfg.voters a' (s.Leads a n) r') (s.node n).queue queue ∧
      r' = { r with state := r'.state, queue := queue, log := log } := by
    rcases happ with ⟨-, heq⟩ | ⟨-, queue, log, happ, heq⟩
    · exact ⟨_, _, hque₀, .refl _, heq⟩
    · obtain ⟨hinv, hstep⟩ := hque₀.appendOperations (fun _ => knowledge_term_le) hkno happ
      exact ⟨queue, log, hinv, hstep, heq⟩
  have hnode' : NodeInv cfg.voters a' (s.Leads a n) n r' := by
    refine (h.node n).of_queueStep hle hterm' hlead' happl' ?_ ?_ hsnd'
      (fun _ => ⟨hlogOf, fun _ => hlast'⟩) ?_ ?_
    · rw [heq]
      exact hbnd
    · rw [heq]
      simp [hnoOp]
    · rw [congrArg (·.queue) heq, congrArg (·.log) heq]
      exact hinv
    · rw [congrArg (·.queue) heq]
      exact hstep
  refine ⟨a', h.append hleads hmsgs hterm' hlog' (.of_metadata_eq hmeta) hnode' ?_⟩
  rw [Performing, congrArg (·.performing) heq, isLeader, ReplicaState.isLeader, hlead', hterm']
  change ∀ p id, r.performing p = some id → _
  rw [hperf]
  exact h.performing n

/-- A new leader appends its no-op. -/
lemma LogInv.step_appendNoOp (hs : s.onNode n (fun r => if r.noOpPending ∧ r.clock < nowHt then
      r.appendNoOp n cfg.toRaftConfig (s.now cfg n) nowHt else none) = some s') :
    ∃ a', LogInv cfg s' a' cand := by
  obtain ⟨r, hr, rfl⟩ := map_eq_some_iff.1 hs
  beta_reduce at hr
  split_ifs at hr with hguard
  exact h.appendNewRoundsToQueue hr ((h.node n).noOpPending hguard.1) rfl rfl rfl rfl rfl rfl
    (.inr ⟨by simp, by simp⟩)

/-- A leader appends rounds of its clients. -/
lemma LogInv.step_replicate (hs : s.replicate cfg n rounds = some s') :
    ∃ a', LogInv cfg s' a' cand := by
  simp only [replicate] at hs
  split_ifs at hs with hguard
  obtain ⟨r, hr, rfl⟩ := map_eq_some_iff.1 hs
  simp only [replicateBatch] at hr
  split_ifs at hr with hbnd
  have hnoOp : (s.node n).noOpPending = false := by simpa using hguard.1
  exact h.appendNewRoundsToQueue hr ((h.node n).bound _ hbnd).1 rfl rfl rfl rfl rfl hnoOp
    (.inl hnoOp)

end

/-! ## Updates -/

omit [DecidableEq ι] in
/-- A replica that does not lead needs to know nothing. -/
lemma knowledge_lawful_of_not_leads
    (hnot : ¬leads r.state.currentTerm) : (knowledge voters a leads r).Lawful n voters :=
  ⟨.inl rfl, fun _ => knowledge_term_le, fun hl => absurd hl hnot⟩

section

variable (h : LogInv cfg s a cand)

include h

/-- What was committed up to a term is in the log of every leader from the term on. -/
lemma LogInv.prefix_of_committedLog {T' : ℕ}
    (hl : CommittedLog cfg.voters a T l) (hT' : a.elected T') (hle : T ≤ T') :
    l <+: a.logOf T' := by
  rcases hl with rfl | ⟨T₁, i, hT₁, hch, hlen, hpfx⟩
  · exact nil_prefix
  · refine .trans ?_ (hch.prefix_logOf h.raft hT' (hT₁.trans hle))
    exact prefix_take_iff.2 ⟨hpfx, hlen⟩

/-- A part of a leader's log that is not past what the leader has committed. -/
lemma LogInv.committedLog_of_isPrefix (hT : a.elected T)
    (hidx : CommittedIndex cfg.voters a T index) (hl : l <+: a.logOf T) (hlen : l.length ≤ index) :
      CommittedLog cfg.voters a T l := by
  rcases hidx with rfl | ⟨T', i, hT', hch, hi⟩
  · exact .inl (length_eq_zero_iff.1 (Nat.le_zero.1 hlen))
  refine .inr ⟨T', i, hT', hch, hlen.trans hi, ?_⟩
  have hpre := hch.prefix_logOf h.raft hT hT'
  have hown := hch.1.lt
  refine (prefix_of_prefix_length_le hl hpre ?_).trans ( take_prefix _ _)
  rw [length_take]
  omega

/-- A replica agrees with the log of every leader whose requests it accepts. -/
lemma LogInv.agrees (hT : a.elected T)
    (hle : (s.node n).state.currentTerm ≤ T) : (s.node n).state.Agrees (a.logOf T) := by
  refine ⟨h.prefix_of_committedLog (h.node n).committed hT hle, ?_⟩
  intro i x y hx hy hterm
  rw [← h.log n] at hx ⊢
  exact (h.raft.log_wf n).take_eq (h.raft.logOf_wf T) hx hy hterm

/-- The last operation of a log is one of the leader's only if the whole log is part of the
leader's. -/
lemma LogInv.acknowledged_of_not_isPrefix (hwf : WellFormed opTerm a l) (hidx : Indexed l)
    (hterm : ∀ m ∈ l, m.id.term ≤ T) (hnot : ¬l <+: a.logOf T) :
    (lastId l).term < T ∧ ∀ m ∈ a.logOf T, m.id ≠ lastId l := by
  have hne : l ≠ [] := by
    rintro rfl
    exact hnot nil_prefix
  obtain ⟨x, hx, hid⟩ := exists_getElem?_of_lastId hne
  have hpos : 0 < l.length := length_pos_iff.2 hne
  rw [hid]
  -- in both cases the log would be a part of the leader's up to its last operation
  constructor
  · refine (hterm x (mem_of_getElem? hx)).lt_of_ne ?_
    intro heq
    have hpre := (hwf _ x hx).2
    rw [Nat.sub_add_cancel hpos, take_length] at hpre
    exact hnot (heq ▸ hpre)
  · intro m hm hmx
    obtain ⟨j, hj⟩ := mem_iff_getElem?.1 hm
    have hjx : j = l.length - 1 := by
      have h₁ := (h.indexed T).index_eq hj
      have h₂ := hidx.index_eq hx
      rw [hmx] at h₁
      omega
    subst hjx
    have htake := hwf.take_eq (h.raft.logOf_wf T) hx hj (congrArg OpId.term hmx.symm)
    rw [Nat.sub_add_cancel hpos, take_length] at htake
    exact hnot (htake ▸ take_prefix _ _)

end

/-- The abstract state after a replica has followed a leader: the replica has acknowledged its log,
if the log is part of the leader's. -/
noncomputable def followed (a : Abstract ι) (n : ι) (T : ℕ) (l : List ReplicateMsg) : Abstract ι :=
  let a₁ : Abstract ι := { a with term := fun m => if m = n then T else a.term m }
  let a₂ := a₁.setLog n l
  open Classical in if l <+: a.logOf T then a₂.ack n l.length else a₂

/-- A follower takes a part of the leader's log, in the abstract protocol. -/
lemma followed_spec (hraft : Inv cfg.voters opTerm a) (hT : a.elected T) (hle : a.term n ≤ T)
    (hwf : WellFormed opTerm a l) (hterm : ∀ m ∈ l, m.id.term ≤ T)
    (hconf : Conforms (a.logOf T) (a.log n) l) :
    Inv cfg.voters opTerm (followed a n T l) ∧ Le opTerm a (followed a n T l) ∧
      (l <+: a.logOf T → l.length ≤ (followed a n T l).acked n T) := by
  set a₁ : Abstract ι := { a with term := fun m => if m = n then T else a.term m } with ha₁
  have hself : a₁.term n = T := by simp [ha₁]
  have hle₁ : Le opTerm a (a₁.setLog n l) := { Le.setTerm hle with }
  -- the follower is in the leader's term, and takes the log
  have h₂ : Inv cfg.voters opTerm (a₁.setLog n l) := by
    have h₁ : Inv cfg.voters opTerm a₁ := hraft.setTerm hle₁.term
    refine h₁.setLog ?_ hwf ?_ ?_ <;> rw [hself]
    exacts [hT, hterm, hconf]
  have hself₂ : (a₁.setLog n l).term n = T := hself
  by_cases hpre : l <+: a.logOf T
  · -- a part of the leader's log is acknowledged
    have heq : followed a n T l = (a₁.setLog n l).ack n l.length := if_pos hpre
    rw [heq]
    refine ⟨h₂.ack ?_ ?_, hle₁.trans le_ack, ?_⟩
    · rw [hself₂]
      exact hpre.length_le
    · rw [hself₂]
      obtain ⟨rest, hrest⟩ := hpre
      change (a.logOf T).take _ <+: _
      rw [← hrest]
      simp [State.setLog]
    · simp [State.ack, hself₂]
  · have heq : followed a n T l = a₁.setLog n l := if_neg hpre
    rw [heq]
    exact ⟨h₂, hle₁, fun hp => absurd hp hpre⟩

/-- Only the term, the log and the acknowledged operations of the follower change. -/
lemma followed_eq (a : Abstract ι) (n : ι) (T : ℕ) (l : List ReplicateMsg) :
    (followed a n T l).elected = a.elected ∧ (followed a n T l).logOf = a.logOf ∧
      (followed a n T l).ballot = a.ballot ∧ (followed a n T l).term n = T ∧
      (followed a n T l).log n = l ∧
      ∀ m, m ≠ n → (followed a n T l).term m = a.term m ∧ (followed a n T l).log m = a.log m := by
  have hoth : ∀ m, m ≠ n → (if m = n then T else a.term m) = a.term m ∧
      Function.update a.log n l m = a.log m :=
    fun m hm => ⟨if_neg hm, update_of_ne hm ..⟩
  unfold followed
  split_ifs
  all_goals exact ⟨rfl, rfl, rfl, if_pos rfl, update_self .., hoth⟩

section Follow

variable (h : LogInv cfg s a cand) {b : ReplicaState ι}
  (hle : (s.node n).state.currentTerm ≤ T)
  (hfol : ReplicaState.Follows (a.logOf T) index (s.node n).state b)

include h hle hfol

/-- The log of a replica that follows a leader is a part of what it had, or of the leader's. -/
lemma LogInv.wellFormed_of_follows :
    WellFormed opTerm a b.log ∧ ∀ m ∈ b.log, m.id.term ≤ T := by
  rcases hfol.source with hpre | hpre
  · rw [← h.log n] at hpre
    refine ⟨(h.raft.log_wf n).of_isPrefix hpre, fun m hm => ?_⟩
    exact (h.raft.log_term n m (hpre.subset hm)).trans (h.term n ▸ hle)
  · exact ⟨(h.raft.logOf_wf T).of_isPrefix hpre,
      fun m hm => h.raft.logOf_term T m (hpre.subset hm)⟩

/-- A replica that follows a leader has committed what leaders up to its term have committed. -/
lemma LogInv.committedLog_of_follows (hel : a.elected T)
    (hcom : CommittedIndex cfg.voters a T index) : CommittedLog cfg.voters a T b.applied := by
  rcases hfol.committed with heq | ⟨hpre, hlen⟩
  · rw [heq]
    exact (h.node n).committed.mono (.refl a) hle
  · exact h.committedLog_of_isPrefix hel hcom hpre hlen

/-- What a replica that follows a leader says is right once the abstract state has its log. -/
lemma LogInv.statusInv_of_follows (hel : a.elected T) {status : ConsensusStatus}
    (hlast : status.lastReceived = b.lastReceivedOpId)
    (hcurrent : status.lastReceivedCurrentLeader = b.lastReceivedOpIdCurrentLeader) :
    StatusInv (followed a n T b.log) T n status := by
  obtain ⟨hwf, hterms⟩ := h.wellFormed_of_follows hle hfol
  obtain ⟨-, -, hacked⟩ := followed_spec h.raft hel (h.term n ▸ hle) hwf hterms
    (h.log n ▸ hfol.conforms)
  refine ⟨?_, ?_⟩
  · rw [hlast, hfol.sound.lastReceived]
    by_cases hpre : b.log <+: a.logOf T
    · left
      rw [hfol.sound.indexed.lastId_index]
      exact hacked hpre
    · right
      rw [(followed_eq a n T b.log).2.1]
      exact h.acknowledged_of_not_isPrefix hwf hfol.sound.indexed hterms hpre
  · rw [hlast, hcurrent]
    exact hfol.sound.currentLeader

end Follow

section Handle

variable (h : LogInv cfg s a cand) {c : UpdateRpc ι} (hc : UpdateInv cfg.voters s a c)
  (hcall : c.request.callerUuid ≠ c.dest) (hnoOp : (s.node c.dest).noOpPending = false)
  {uctx : UpdateContext} {result : Option UpdateReplicaResult}
  (hr : (s.node c.dest).updateReplica c.dest cfg.toRaftConfig c.request uctx = some (r', result))
  (hle : (s.node c.dest).state.currentTerm ≤ c.request.callerTerm)
  (hterm : r'.state.currentTerm = c.request.callerTerm)
  (hfol : ReplicaState.Follows (a.logOf c.request.callerTerm)
    c.request.committedOpId.index (s.node c.dest).state r'.state)

include h hc hcall hnoOp hr hle hterm hfol

/-- The invariant of a replica that handles a call of a leader, while the abstract state is what it
was. It waits for no call. -/
lemma LogInv.nodeInv_updateReplica :
    NodeInv cfg.voters a (s.Leads a c.dest) c.dest r' ∧ ∀ p, r'.performing p = none := by
  set n := c.dest with hn
  set T := c.request.callerTerm with hT
  -- the caller leads the term, so this replica does not
  have hnot : ¬s.Leads a n T := fun hl =>
    hcall (h.election.wonElection_unique hc.leads.2 hl.2)
  have hlead : r'.isLeader n = false := by
    by_contra hl
    obtain ⟨hl₀, hterm₀⟩ := (quiet_updateReplica hcall hr).leader
      (by simpa [isLeader, ReplicaState.isLeader] using hl)
    refine hnot ?_
    rw [← hterm, hterm₀]
    exact (h.node n).leader (by simpa [isLeader, ReplicaState.isLeader] using hl₀)
  -- the replica in the term of the caller, before it looks at the operations
  set r₁ := (s.node n).updateClock c.request.propagatedHybridTime with hr₁
  have hnode₁ : NodeInv cfg.voters a (s.Leads a n) n r₁ :=
    (h.node n).of_eq rfl rfl rfl rfl rfl
  set r₂ := r₁.handleTermAdvance n T with hr₂
  have hnode₂ : NodeInv cfg.voters a (s.Leads a n) n r₂ :=
    hnode₁.handleTermAdvance hnoOp fun _ => hnot
  obtain ⟨hterm₂, happl₂⟩ :
      r₂.state.currentTerm = T ∧ r₂.state.applied = (s.node n).state.applied := by
    rcases hle.lt_or_eq with hlt | heq
    · rw [handleTermAdvance_state_of_lt (r := r₁) hlt]
      exact ⟨rfl, rfl⟩
    · rw [hr₂, handleTermAdvance_of_le (r := r₁) heq.ge]
      exact ⟨heq, rfl⟩
  have hnot₂ : ¬s.Leads a n r₂.state.currentTerm := by rwa [hterm₂]
  have hkno : ∀ m ∈ c.request.ops, (knowledge cfg.voters a (s.Leads a n) r₂).known m.id := by
    intro m hm
    have hmem : m ∈ a.logOf T :=
      hc.slice.take_append.subset (mem_append_right _ hm)
    refine .inr ⟨?_, m, (h.raft.logOf_wf T).mem_logOf hmem, rfl⟩
    rw [hterm₂]
    exact h.raft.logOf_term T m hmem
  have hkept : QueueKept (knowledge cfg.voters a (s.Leads a n) r₂) n r₂ r' := by
    rcases queueKept_updateReplica hr with heq | hkept
    · -- the request was turned down, and the replica was in the term already
      have hsame : r₂ = r₁ := by
        refine handleTermAdvance_of_le ?_
        rw [← hterm, heq]
      have hr' : r' = r₂ := heq.trans hsame.symm
      rw [hr']
      exact .of_eq hnode₂.queue rfl rfl (.refl _)
    · exact hkept (knowledge_lawful_of_not_leads hnot₂) hkno rfl hnode₂.queue
  refine ⟨hnode₂.of_follows hnot₂ hkept (hterm.trans hterm₂.symm) hlead hfol.sound
    (happl₂ ▸ hfol.applied.length_le)
    (hterm₂ ▸ h.committedLog_of_follows hle hfol hc.leads.1 hc.committed), fun p => ?_⟩
  -- only a leader waits for calls, and this replica was none if its term has not changed
  by_contra hp
  obtain ⟨id, hp⟩ := Option.ne_none_iff_exists'.1 hp
  rw [hkept.role.performing] at hp
  obtain ⟨heq, hp₁⟩ := performing_handleTermAdvance (r := r₁) (fun p id hp =>
    (h.performing n p id hp).1) hp
  rw [hr₂, heq] at hnot₂
  exact hnot₂ ((h.node n).leader (h.performing n p id hp₁).1)

/-- A replica follows the leader that has sent a call. -/
lemma LogInv.follow (hrep : Reports r'.state result) :
    ∃ a', LogInv cfg (s.setNode c.dest r') a' cand ∧
      ∀ res, result = some res → res.response.status.error = none →
        StatusInv a' c.request.callerTerm c.dest res.response.status := by
  have hel := hc.leads.1
  obtain ⟨hnode, hperf⟩ := h.nodeInv_updateReplica hc hcall hnoOp hr hle hterm hfol
  obtain ⟨hwf, hterms⟩ := h.wellFormed_of_follows hle hfol
  -- the abstract replica takes the same log
  obtain ⟨hraft, hle', -⟩ := followed_spec h.raft hel (h.term c.dest ▸ hle) hwf hterms
    (h.log c.dest ▸ hfol.conforms)
  obtain ⟨heqElected, heqLogOf, heqBallot, heqTerm, heqLog, heqOther⟩ :=
    followed_eq a c.dest c.request.callerTerm r'.state.log
  refine ⟨followed a c.dest c.request.callerTerm r'.state.log, ?_, fun res hres hok => ?_⟩
  · refine h.setNode_of_logOf_eq hle' heqElected heqLogOf heqBallot hraft
      (heqTerm.trans hterm.symm) heqLog heqOther
      (h.election.setNode (quiet_updateReplica hcall hr))
      (hnode.mono hle' (fun _ => .rfl) fun T' _ => by rw [heqLogOf]) ?_ ?_
    · rw [hterm]
      exact absurd hel
    · intro p id hp
      rw [hperf p] at hp
      cases hp
  · -- what is reported is what the replica has
    obtain ⟨hlast, hcurrent⟩ := hrep res hres hok
    exact h.statusInv_of_follows hle hfol hel hlast hcurrent

end Handle

/-- A replica handles a call of a leader. -/
lemma LogInv.step_handleUpdate (h : LogInv cfg s a cand) {numPrepared tie : ℕ}
    {earlyCommit markCommitted : ApplyContext}
    (hs : s.handleUpdate cfg id numPrepared earlyCommit markCommitted tie = some s') :
    ∃ a', LogInv cfg s' a' cand := by
  simp only [handleUpdate] at hs
  split at hs
  · cases hs
  rename_i c hc
  split_ifs at hs with hguard
  split at hs
  · cases hs
  rename_i r' result hr
  cases hs
  have hcall := h.update id c hc
  have hcaller := h.election.caller id c hc
  have hnoOp : (s.node c.dest).noOpPending = false := by simpa using hguard.2
  -- the state after the step, and what the replica says
  have hnext : ∃ a', LogInv cfg (s.setNode c.dest r') a' cand ∧
      ∀ res, result = some res → res.response.status.error = none →
        StatusInv a' c.request.callerTerm c.dest res.response.status := by
    rcases updateReplica_follows (h.node c.dest).sound (h.indexed _)
      (h.agrees hcall.leads.1) hcall.slice hr with ⟨rfl, herr⟩ | ⟨hle, hterm, hfol, hrep, -⟩
    · obtain ⟨a', h'⟩ :=
        h.setNode_of_state_eq (r := (s.node c.dest).updateClock c.request.propagatedHybridTime) rfl
        ((h.node c.dest).of_eq rfl rfl rfl rfl rfl) fun _ _ hp => hp
      exact ⟨a', h', fun res hres hok => absurd hok (herr res hres)⟩
    · exact h.follow hcall hcaller hnoOp hr hle hterm (follows_mono hfol (min_le_right _ _)) hrep
  obtain ⟨a', h', hack⟩ := hnext
  have hcall' := h'.update id c hc
  refine ⟨a', h'.setUpdateRpc ⟨hcall'.leads, hcall'.slice, hcall'.committed, ?_⟩ hcaller ?_⟩
  · intro status hstat hok
    cases result with
    | none => simp [UpdateRpc.reported] at hstat
    | some res =>
      obtain rfl : res.response.status = status := by simpa [UpdateRpc.reported] using hstat
      exact hack res rfl hok
  · intro c₀ hc₀
    obtain rfl : c = c₀ := Option.some.inj (hc.symm.trans hc₀)
    exact ⟨rfl, rfl⟩

end Cluster
