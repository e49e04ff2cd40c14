import ZNbase.Consensus.LogInvariant

/-!
# Steps of one replica

Each way in which a replica changes keeps its part of the invariant of the replicated log: what its
queue and its log do while its state stays the same, a step down, a new term, and operations that
are committed.
-/

open List OpLog RaftConsensus PeerMessageQueue

namespace Cluster

variable {ι : Type} [DecidableEq ι] {voters : List ι} {a : Abstract ι} {leads : ℕ → Prop} {n : ι}
  {r r' : RaftConsensus ι} {T : ℕ} {s : ReplicaState ι}

open RaftConsensus (QueueKept SameRole)

section

variable (h : NodeInv voters a leads n r)

include h

/-- The queue and the log of a replica change. -/
lemma NodeInv.of_queueKept (hkept : QueueKept (knowledge voters a leads r) n r r')
    (hst : r'.state = r.state) :
    NodeInv voters a leads n r' := by
  have hk : knowledge voters a leads r' = knowledge voters a leads r := by
    simp only [knowledge, hst]
  refine h.of_queueStep (.refl a) (by rw [hst]) (by rw [hst]) (by rw [hst])
    hkept.role.boundTerm ?_ (hst ▸ h.sound) ?_ (hk ▸ hkept.inv) (hk ▸ hkept.step)
  · rw [hkept.role.noOpPending]
    exact id
  · rw [hkept.role.noOpPending, hst]
    exact fun hl => (h.leading hl).2

/-- A replica that is not leader moves to a later term that it does not lead. -/
lemma NodeInv.setCurrentTerm (hlead : r.isLeader n = false)
    (hnoOp : r.noOpPending = false) (hlt : r.state.currentTerm < T) (hnot : ¬leads T) :
    NodeInv voters a leads n { r with state := r.state.setCurrentTerm T } := by
  -- only a leader has its queue in the mode of a leader
  have hmode : r.queue.mode ≠ .leader := by
    intro hmode
    simp [(h.leaderMode hmode).1] at hlead
  have hkno : ∀ id, Known a r.state.currentTerm id → Known a T id :=
    fun id hid => Known.mono (.refl a) hid hlt.le
  have hnone : isLeader { r with state := r.state.setCurrentTerm T } n = false := by
    simp [isLeader, ReplicaState.isLeader, ReplicaState.setCurrentTerm]
  refine ⟨h.sound.setCurrentTerm, ?_, ?_, ?_, ?_, ?_,
    ⟨hkno _ h.queue.lastAppended, ?_, ?_, ?_, ?_, ?_⟩,
    ?_, ?_, h.notifications, ?_⟩
  · intro T' hT'
    exact ⟨(h.bound T' hT').1, (h.bound T' hT').2.trans hlt.le⟩
  · intro hl
    exact absurd hl hnot
  · intro hp
    simp [hnoOp] at hp
  · intro hl
    simp [hnone] at hl
  · exact h.committed.mono (.refl a) hlt.le
  · exact fun c hc => hkno _ (h.queue.callbacks c hc)
  · exact fun p hp => hkno _ (h.queue.localPeer p hp)
  · -- it tracks no other peers, so that nothing is noted of them
    intro uuid p hu hp
    rw [h.remote hlead uuid hu] at hp
    cases hp
  · exact fun hm => absurd hm hmode
  · exact fun hm => absurd hm hmode
  · exact fun hm => absurd hm hmode
  · exact fun _ => h.remote hlead
  · intro hl
    simp [hnone] at hl

/-- A leader steps down. -/
lemma NodeInv.becomeReplica : NodeInv voters a leads n (r.becomeReplica n) := by
  have hnone : (r.becomeReplica n).isLeader n = false := by
    simp [RaftConsensus.isLeader, ReplicaState.isLeader, RaftConsensus.becomeReplica]
  have hmode : (r.becomeReplica n).queue.mode ≠ .leader := by
    simp [RaftConsensus.becomeReplica, untrackRemotePeers, setNonLeaderMode]
  -- the queue is that of a replica that leads nobody
  have hpeer : ∀ p, p ≠ n → (r.becomeReplica n).queue.peers p = none := by
    intro p hp
    simp [RaftConsensus.becomeReplica, untrackRemotePeers, hp]
  have hself : (r.becomeReplica n).queue.peers n = r.queue.peers n := by
    simp [RaftConsensus.becomeReplica, untrackRemotePeers, setNonLeaderMode]
  refine ⟨h.sound.of_eq rfl rfl rfl rfl rfl (.inr rfl), h.bound, h.leading, h.noOpPending, ?_,
    h.committed, ⟨h.queue.lastAppended, h.queue.callbacks, ?_, ?_, ?_, ?_⟩, ?_, fun _ => hpeer,
    h.notifications, ?_⟩
  · intro hl
    simp [hnone] at hl
  · rw [hself]
    exact h.queue.localPeer
  · intro uuid p hu hp
    rw [hpeer uuid hu] at hp
    cases hp
  · exact fun hm => absurd hm hmode
  · exact fun hm => absurd hm hmode
  · exact fun hm => absurd hm hmode
  · intro hl
    simp [hnone] at hl

/-- A replica takes over a term that it does not lead. -/
lemma NodeInv.handleTermAdvance (hnoOp : r.noOpPending = false)
    (hnot : r.state.currentTerm < T → ¬leads T) :
    NodeInv voters a leads n (r.handleTermAdvance n T) := by
  rw [RaftConsensus.handleTermAdvance]
  split_ifs with hle hlead
  · exact h
  · rw [not_le] at hle
    refine NodeInv.setCurrentTerm h.becomeReplica ?_ hnoOp hle (hnot hle)
    simp [RaftConsensus.isLeader, ReplicaState.isLeader, RaftConsensus.becomeReplica]
  · rw [not_le] at hle
    exact NodeInv.setCurrentTerm h (by simpa using hlead) hnoOp hle (hnot hle)

/-- A replica commits operations. A leader does so for a notification of its own term, when there is
none of an earlier term left. -/
lemma NodeInv.commit {index : ℕ} (hmeta : s.metadata = r.state.metadata)
    (hadv : r.state.Advances s index) (hcom : CommittedLog voters a r.state.currentTerm s.applied)
    (hnew : r.isLeader n = true → ∀ data, .majorityReplOpChange data ∈ r.queue.notifications →
      (knowledge voters a leads r).replicated data.opId) :
    NodeInv voters a leads n { r with state := s } := by
  simp only [ReplicaState.metadata, Prod.mk.injEq] at hmeta
  obtain ⟨hterm, -, hleaderUuid, -⟩ := hmeta
  have hlead : isLeader { r with state := s } n = r.isLeader n := by
    simp only [isLeader, ReplicaState.isLeader, hleaderUuid]
  have hle : (knowledge voters a leads r).Le (knowledge voters a leads { r with state := s }) :=
    knowledge_le (.refl a) hterm hadv.applied.length_le id
  refine ⟨hadv.sound h.sound, ?_, ?_, ?_, ?_, ?_, h.queue.mono hle, ?_, ?_, h.notifications, ?_⟩
  · simp only [hterm]
    exact h.bound
  · simp only [hterm, hadv.log]
    exact h.leading
  · simp only [hterm]
    exact h.noOpPending
  · simp only [hlead, hterm]
    exact h.leader
  · simp only [hterm]
    exact hcom
  · intro hmode
    rw [hlead]
    obtain ⟨hl, hc⟩ := h.leaderMode hmode
    exact ⟨hl, hc.trans hadv.applied.length_le⟩
  · rw [hlead]
    exact h.remote
  · rw [hlead]
    intro hl
    -- all notifications are new ones from now on
    refine ⟨[], r.queue.notifications, rfl, ?_, ?_, absurd rfl⟩
    · intro data hdata
      cases hdata
    · exact fun data hdata => hle.replicated _ (hnew hl data hdata)

end

/-- A change that leaves the operations, the term and the leader of a replica alone. -/
structure SameOps (s s' : ReplicaState ι) : Prop where
  term : s'.currentTerm = s.currentTerm
  leader : s'.leaderUuid = s.leaderUuid
  pending : s'.pendingOperations = s.pendingOperations
  applied : s'.applied = s.applied
  received : s'.lastReceivedOpId = s.lastReceivedOpId
  currentLeader : s'.lastReceivedOpIdCurrentLeader = s.lastReceivedOpIdCurrentLeader
  committed : s'.lastCommittedOpId = s.lastCommittedOpId
  nextIndex : s'.nextIndex = s.nextIndex

omit [DecidableEq ι] in
lemma SameOps.log {s' : ReplicaState ι} (h : SameOps s s') : s'.log = s.log := by
  rw [ReplicaState.log, h.applied, h.pending, ReplicaState.log]

omit [DecidableEq ι] in
lemma SameOps.advances {s' : ReplicaState ι} (h : SameOps s s') (index : ℕ) : s.Advances s' index :=
  ⟨h.log, h.applied ▸ prefix_rfl, .inl h.applied,
    fun hs =>
      hs.of_eq h.pending h.applied h.received h.committed h.nextIndex (.inr h.currentLeader)⟩

section

variable (h : NodeInv voters a leads n r)

include h

/-- A change of other fields keeps the invariant of a replica. -/
lemma NodeInv.of_sameOps (hs : SameOps r.state s) :
    NodeInv voters a leads n { r with state := s } := by
  have hk : knowledge voters a leads { r with state := s } = knowledge voters a leads r := by
    simp only [knowledge, hs.term, hs.applied]
  refine h.of_queueStep (.refl a) hs.term hs.leader hs.applied rfl id
    ((hs.advances 0).sound h.sound) ?_ (hk ▸ h.queue) (.refl _)
  rw [hs.log]
  exact fun hl => (h.leading hl).2

/-- The queue learns what is committed. -/
lemma NodeInv.raiseCommitted {op : OpId} (hop : op.index ≤ r.state.applied.length) :
    NodeInv voters a leads n { r with queue := r.queue.raiseCommitted op } := by
  simp only [PeerMessageQueue.raiseCommitted]
  split_ifs
  · exact { h with
      queue := h.queue.of_eq rfl rfl rfl rfl rfl
      leaderMode := fun hm => ⟨(h.leaderMode hm).1, hop⟩ }
  · exact h

/-- The invariant does not speak about clocks and calls. -/
lemma NodeInv.of_eq (hst : r'.state = r.state) (hque : r'.queue = r.queue) (hlog : r'.log = r.log)
    (hnoOp : r'.noOpPending = r.noOpPending) (hbnd : r'.boundTerm = r.boundTerm) :
    NodeInv voters a leads n r' := by
  obtain ⟨state, queue, log, _, _, noOp, bound, _⟩ := r
  subst hst hque hlog hnoOp hbnd
  exact h.of_queueStep (.refl a) rfl rfl rfl rfl id h.sound (fun hl => (h.leading hl).2)
    h.queue (.refl _)

/-- The next notification of a queue. On a leader it is one of an earlier term, which commits
nothing, or all that are left are of the leader's term, like this one. -/
lemma NodeInv.popNotification {x : Notification}
    {rest : List Notification} (hx : r.queue.notifications = x :: rest) :
    NodeInv voters a leads n (r.withQueue { r.queue with notifications := rest }) ∧
      (r.isLeader n = true → ∀ data, x = .majorityReplOpChange data →
        (data.opId.term < r.state.currentTerm ∧
            r.state.lastCommittedOpId.term < r.state.currentTerm) ∨
          (knowledge voters a leads r).replicated data.opId ∧
            ∀ data', .majorityReplOpChange data' ∈ rest →
              (knowledge voters a leads r).replicated data'.opId) := by
  -- the first notification is an old one, or there are no old ones
  have hnext : r.isLeader n = true → ∃ old new, rest = old ++ new ∧
      NotificationsInv (knowledge voters a leads r) r.state.lastCommittedOpId.term old new ∧
      ∀ data, x = .majorityReplOpChange data → (data.opId.term < r.state.currentTerm ∧
            r.state.lastCommittedOpId.term < r.state.currentTerm) ∨
          old = [] ∧ (knowledge voters a leads r).replicated data.opId := by
    intro hl
    obtain ⟨old, new, heq, hinv⟩ := h.leaderNotifications hl
    rw [hx] at heq
    cases old with
    | nil =>
      subst heq
      refine ⟨[], rest, rfl, ⟨by simp, ?_, by simp⟩, ?_⟩
      · exact fun data hdata => hinv.newOps data (mem_cons_of_mem _ hdata)
      · rintro data rfl
        exact .inr ⟨rfl, hinv.newOps data mem_cons_self⟩
    | cons y old =>
      obtain ⟨rfl, rfl⟩ := List.cons.inj heq
      refine ⟨old, new, rfl, ⟨?_, hinv.newOps, fun _ => hinv.committed (by simp)⟩, ?_⟩
      · exact fun data hdata => hinv.oldTerm data (mem_cons_of_mem _ hdata)
      · rintro data rfl
        exact .inl ⟨hinv.oldTerm data mem_cons_self, hinv.committed (by simp)⟩
  refine ⟨⟨h.sound, h.bound, h.leading, h.noOpPending, h.leader, h.committed,
    h.queue.of_eq rfl rfl rfl rfl rfl, h.leaderMode, h.remote, ?_, ?_⟩, ?_⟩
  · intro data hdata
    exact h.notifications data (hx ▸ mem_cons_of_mem _ hdata)
  · intro hl
    obtain ⟨old, new, heq, hinv, -⟩ := hnext hl
    exact ⟨old, new, heq, hinv⟩
  · intro hl data hdata
    obtain ⟨old, new, heq, hinv, hfirst⟩ := hnext hl
    refine (hfirst data hdata).imp_right ?_
    rintro ⟨rfl, hrep⟩
    subst heq
    exact ⟨hrep, hinv.newOps⟩

/-- A replica in a term that it does not lead follows the leader of the term. -/
lemma NodeInv.of_follows (hnot : ¬leads r.state.currentTerm)
    (hkept : QueueKept (knowledge voters a leads r) n r r')
    (hterm : r'.state.currentTerm = r.state.currentTerm) (hlead : r'.isLeader n = false)
    (hsnd : r'.state.Sound) (happl : r.state.applied.length ≤ r'.state.applied.length)
    (hcom : CommittedLog voters a r.state.currentTerm r'.state.applied) :
    NodeInv voters a leads n r' := by
  -- it was no leader before either
  have hlead₀ : r.isLeader n = false := by
    by_contra hl
    exact hnot (h.leader (by simpa using hl))
  have hmode : r.queue.mode ≠ .leader := by
    intro hm
    simp [(h.leaderMode hm).1] at hlead₀
  obtain ⟨new, hnew, hdata⟩ := hkept.step.notifications
  refine ⟨hsnd, ?_, ?_, ?_, ?_, hterm ▸ hcom,
    hkept.inv.mono (knowledge_le (.refl a) hterm happl id), ?_, ?_, ?_, ?_⟩
  · rw [hkept.role.boundTerm, hterm]
    exact h.bound
  · rw [hterm]
    exact fun hl => absurd hl hnot
  · rw [hkept.role.noOpPending, hterm]
    exact h.noOpPending
  · rw [hlead]
    simp
  · rw [hkept.step.mode]
    exact fun hm => absurd hm hmode
  · intro _ p hp
    exact (hkept.step.tracked p).2 (h.remote hlead₀ p hp)
  · -- only a leader gets notifications of what a majority has
    intro data hmem
    rw [hkept.role.boundTerm]
    rw [hnew] at hmem
    rcases mem_append.1 hmem with hmem | hmem
    · exact h.notifications data hmem
    · exact absurd (hdata data hmem).1 hmode
  · rw [hlead]
    simp

end

/-- A tracked peer was tracked before, or is a new one. -/
lemma peers_trackRemotePeers {q : PeerMessageQueue ι} {uuid : ι} {p : TrackedPeer}
    (hp : (q.trackRemotePeers voters).peers uuid = some p) :
    p = { nextIndex := q.lastAppended.index + 1 } ∨ q.peers uuid = some p := by
  simp only [trackRemotePeers] at hp
  split_ifs at hp
  · exact .inl (Option.some.inj hp).symm
  · exact .inr hp

/-- A replica that has won an election becomes leader, with the log it has. -/
lemma NodeInv.becomeLeader {a' : Abstract ι} {leads' : ℕ → Prop}
    (h : NodeInv voters a leads n r) (hle : Raft.Le opTerm a a') (hlead : r.isLeader n = false)
    (hleads : ∀ T, leads' T ↔ T = r.state.currentTerm ∨ leads T)
    (hnot : ¬leads r.state.currentTerm) (hlog : a'.logOf r.state.currentTerm = r.state.log)
    (hkno : Known a r.state.currentTerm r.state.lastCommittedOpId)
    (hterm : r.state.lastCommittedOpId.term < r.state.currentTerm) (cfg : RaftConfig ι)
    (lease : CoarseTimeLease ι) (htLease : PhysicalComponentLease ι) :
    NodeInv voters a' leads' n (r.becomeLeader n cfg lease htLease) := by
  set r' := r.becomeLeader n cfg lease htLease with hr'
  have hself : leads' r.state.currentTerm := (hleads _).2 (.inl rfl)
  have hmono : ∀ id, Known a r.state.currentTerm id → Known a' r.state.currentTerm id :=
    fun id hid => hid.mono hle le_rfl
  have hidx := h.sound.lastCommitted_index
  -- the peer itself is tracked, and the others begin with nothing acknowledged
  have hpeer : ∀ uuid p, r'.queue.peers uuid = some p →
      p.lastReceived = OpId.min0 ∧ p.isLastExchangeSuccessful = false ∨
        ∃ p₀, r.queue.peers uuid = some p₀ ∧ p.lastReceived = p₀.lastReceived := by
    intro uuid p hp
    rcases peers_trackRemotePeers hp with rfl | hp
    · exact .inl ⟨rfl, rfl⟩
    · obtain ⟨p₀, hp₀, rfl⟩ := Option.map_eq_some_iff.1 hp
      exact .inr ⟨p₀, hp₀, rfl⟩
  refine ⟨h.sound.of_eq rfl rfl rfl rfl rfl (.inr rfl), ?_, ?_, fun _ => hself, fun _ => hself,
    h.committed.mono hle le_rfl, ⟨hmono _ h.queue.lastAppended, ?_, ?_, ?_, ?_, ?_⟩, ?_, ?_, ?_, ?_⟩
  · intro T hT
    cases hT
    exact ⟨hself, le_rfl⟩
  · intro _
    exact ⟨rfl, hlog.symm, fun hno => by cases hno⟩
  · exact fun c hc => hmono _ (h.queue.callbacks c hc)
  · intro p hp
    rcases hpeer n p hp with ⟨hmin, -⟩ | ⟨p₀, hp₀, heq⟩
    · exact .inl hmin
    · rw [heq]
      exact hmono _ (h.queue.localPeer p₀ hp₀)
  · intro uuid p hu hp hok
    rcases hpeer uuid p hp with ⟨-, hfalse⟩ | ⟨p₀, hp₀, -⟩
    · simp [hfalse] at hok
    · rw [h.remote hlead uuid hu] at hp₀
      cases hp₀
  · exact fun _ => ⟨hself, rfl⟩
  · exact fun _ => ⟨hmono _ hkno, .inl hidx.le⟩
  · intro _
    refine ⟨?_, hidx.le⟩
    simp [hr', RaftConsensus.becomeLeader, RaftConsensus.isLeader, ReplicaState.isLeader]
  · intro hl
    simp [hr', RaftConsensus.becomeLeader, RaftConsensus.isLeader, ReplicaState.isLeader] at hl
  · intro data hdata
    obtain ⟨T, hT, hdataT⟩ := h.notifications data hdata
    exact ⟨_, rfl, hdataT.trans (h.bound T hT).2⟩
  · intro _
    refine ⟨r.queue.notifications, [], (append_nil _).symm, ?_, by simp, fun _ => hterm⟩
    intro data hdata
    obtain ⟨T, hT, hdataT⟩ := h.notifications data hdata
    obtain ⟨hl, hle'⟩ := h.bound T hT
    have hne : T ≠ r.state.currentTerm := by
      rintro rfl
      exact hnot hl
    exact hdataT.trans_lt (lt_of_le_of_ne hle' hne)

end Cluster
