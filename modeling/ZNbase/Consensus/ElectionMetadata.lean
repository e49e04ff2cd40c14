import ZNbase.Consensus.Cluster
import ZNbase.Consensus.UpdateCases

/-!
# Term, vote and leader of a replica

Which functions of a replica change its term, its vote and the leader it knows. Most change none of
them. All but an own election, a vote and a won election change them in a way that is `Quiet`: the
vote of a term is kept, and the replica does not become leader.
-/

open Option ReplicaState

variable {newTerm : ℕ} {now : CoarseTimePoint}

namespace ReplicaState

variable {ι : Type*} {a b c : ReplicaState ι} {self : ι}

/-- The term, the vote and the leader, in memory and on disk. -/
def metadata (s : ReplicaState ι) : ℕ × Option ι × Option ι × PersistentMetadata ι :=
  (s.currentTerm, s.votedFor, s.leaderUuid, s.flushed)

/-- A change that casts no vote and makes the replica no leader. -/
structure Quiet (n : ι) (a b : ReplicaState ι) : Prop where
  term_le : a.currentTerm ≤ b.currentTerm
  vote : b.currentTerm = a.currentTerm → b.votedFor = a.votedFor
  flushed : a.flushed = ⟨a.currentTerm, a.votedFor⟩ → b.flushed = ⟨b.currentTerm, b.votedFor⟩
  leader : b.leaderUuid = some n → a.leaderUuid = some n ∧ b.currentTerm = a.currentTerm

lemma Quiet.refl (self : ι) (a : ReplicaState ι) : Quiet self a a :=
  ⟨le_rfl, fun _ => rfl, id, fun h => ⟨h, rfl⟩⟩

/-- Two quiet changes, one after the other. -/
lemma Quiet.trans (hab : Quiet self a b) (hbc : Quiet self b c) : Quiet self a c where
  term_le := hab.term_le.trans hbc.term_le
  vote h := by
    have hb : b.currentTerm = a.currentTerm :=
      le_antisymm (h ▸ hbc.term_le) hab.term_le
    rw [hbc.vote (h.trans hb.symm), hab.vote hb]
  flushed h := hbc.flushed (hab.flushed h)
  leader h := by
    obtain ⟨hb, hterm⟩ := hbc.leader h
    obtain ⟨ha, hterm'⟩ := hab.leader hb
    exact ⟨ha, hterm.trans hterm'⟩

/-- A change of none of the metadata. -/
lemma Quiet.of_metadata_eq (h : b.metadata = a.metadata) : Quiet self a b := by
  simp only [metadata, Prod.mk.injEq] at h
  obtain ⟨hterm, hvote, hlead, hflu⟩ := h
  refine ⟨hterm.ge, fun _ => hvote, ?_, ?_⟩
  · intro ha
    rw [hflu, ha, hterm, hvote]
  · intro hb
    exact ⟨hlead ▸ hb, hterm⟩

/-- A new term without a leader. -/
lemma quiet_setCurrentTerm (h : a.currentTerm < newTerm) :
    Quiet self a (a.setCurrentTerm newTerm) where
  term_le := h.le
  vote heq := absurd heq h.ne'
  flushed _ := rfl
  leader hl := by simp [setCurrentTerm] at hl

/-- The replica learns of another replica that it is the leader, or forgets the leader. -/
lemma quiet_leaderUuid {leader : Option ι} (h : leader ≠ some self) :
    Quiet self a { a with leaderUuid := leader } where
  term_le := le_rfl
  vote _ := rfl
  flushed := id
  leader hl := absurd hl h

/-! ## Functions that keep the metadata -/

variable {s s' : ReplicaState ι} {ctx : ApplyContext} {couldStop ok : Bool}

/-- A later commit index does not change the term or the vote. -/
lemma metadata_advanceCommittedOpId {committedOpId : OpId}
    (h : s.advanceCommittedOpId ctx committedOpId couldStop = some (ok, s')) :
    s'.metadata = s.metadata := by
  obtain ⟨done, left, -, -, rfl⟩ := advanceCommittedOpId_spec h
  rfl

/-- Neither does what a majority has. -/
lemma metadata_updateMajorityReplicated {opId : OpId}
    (h : s.updateMajorityReplicated ctx opId = some (ok, s')) : s'.metadata = s.metadata := by
  simp only [updateMajorityReplicated] at h
  split_ifs at h with hterm
  · exact metadata_advanceCommittedOpId h
  · cases h
    rfl

/-- Nor do aborted operations. -/
lemma metadata_abortOpsAfter {index : ℕ} (h : s.abortOpsAfter index = some s') :
    s'.metadata = s.metadata := by
  simp only [abortOpsAfter] at h
  split at h
  · cases h
    rfl
  · split_ifs at h
    cases h
    rfl

/-- Nor does a look at the leases. -/
lemma metadata_remainingOldLeaderLeaseDuration (s : ReplicaState ι) (now : CoarseTimePoint) :
    (s.remainingOldLeaderLeaseDuration now).2.metadata = s.metadata := by
  simp only [remainingOldLeaderLeaseDuration]
  split_ifs <;> rfl

end ReplicaState

namespace RaftConsensus

open ReplicaState (Quiet metadata)

variable {ι : Type*} [DecidableEq ι] {r r' : RaftConsensus ι} {self : ι} {cfg : RaftConfig ι}
  {msgs : List ReplicateMsg} {rounds : List NewRound}

/-! ## Roles -/

/-- A leader that steps down changes neither the term nor the vote. -/
lemma quiet_becomeReplica (r : RaftConsensus ι) (self : ι) :
    Quiet self r.state (r.becomeReplica self).state :=
  quiet_leaderUuid (by simp)

/-- A higher term is taken over with nothing but the reset that it brings. -/
lemma handleTermAdvance_state_of_lt (h : r.state.currentTerm < newTerm) :
    (r.handleTermAdvance self newTerm).state = r.state.setCurrentTerm newTerm := by
  simp only [handleTermAdvance, if_neg (not_le.2 h)]
  split_ifs <;> rfl

/-- A term that is not later is ignored. -/
lemma handleTermAdvance_of_le (h : newTerm ≤ r.state.currentTerm) :
    r.handleTermAdvance self newTerm = r := by
  rw [handleTermAdvance, if_pos h]

/-- A later term comes without a vote and without a leader. -/
lemma quiet_handleTermAdvance (r : RaftConsensus ι) (self : ι) (newTerm : ℕ) :
    Quiet self r.state (r.handleTermAdvance self newTerm).state := by
  rcases le_or_gt newTerm r.state.currentTerm with hle | hlt
  · rw [handleTermAdvance_of_le hle]
    exact .refl self r.state
  · rw [handleTermAdvance_state_of_lt hlt]
    exact quiet_setCurrentTerm hlt

/-! ## Updates -/

variable {caller : ι} {deduped : LeaderRequest} {tie : ℕ} {check : CheckResult}
  {request : ConsensusRequest ι} {prevCommitted : OpId} {ctx : UpdateContext}
  {result : Option UpdateReplicaResult} {s s' : ReplicaState ι} {ok : Bool}

/-- The check of a request lets a replica learn who leads its term, and aborts operations. -/
lemma Enforced.metadata (h : Enforced r self cfg caller deduped tie r' check) :
    r'.state.metadata = r.state.metadata ∨
      r'.state.metadata = (r.withLeader caller).state.metadata := by
  cases h with
  | failed | missing => exact .inl rfl
  | mismatch _ habt => exact .inl (metadata_abortOpsAfter habt)
  | accepted => exact .inr rfl
  | aborted _ _ _ habt =>
    have hs := metadata_abortOpsAfter habt
    simp only [metadata, Prod.mk.injEq] at hs ⊢
    exact .inr ⟨hs.1, hs.2.1, rfl, hs.2.2.2⟩

section

omit [DecidableEq ι]

/-- The commit of an update does not change the term or the vote. -/
lemma metadata_markOperationsAsCommitted {ctx : ApplyContext}
    (h : markOperationsAsCommitted s request deduped ctx = some (ok, s')) :
    s'.metadata = s.metadata := by
  simp only [markOperationsAsCommitted] at h
  split at h
  · rw [metadata_advanceCommittedOpId h]
    rfl
  · split at h
    · cases h
      rfl
    · exact metadata_advanceCommittedOpId h

/-- Writes to the log do not change the state. -/
lemma state_enqueueWrites (h : r.enqueueWrites request prevCommitted msgs = some r') :
    r'.state = r.state := by
  rcases enqueueWrites_cases h with ⟨rfl, -⟩ | ⟨queue, log, committed, -, rfl⟩
  · rfl
  · rfl

/-- The early commit does not change the term or the vote. -/
lemma metadata_earlyCommit (h : r.earlyCommit cfg request deduped ctx = some (ok, s)) :
    s.metadata = r.state.metadata := by
  rw [metadata_advanceCommittedOpId h, acknowledgeLeader]
  split <;> rfl

/-- Nor does the rest of an update. -/
lemma Applied.metadata (h : Applied r cfg request prevCommitted deduped ctx r' result) :
    r'.state.metadata = r.state.metadata := by
  cases h with
  | stopped hearly | unprepared hearly => exact metadata_earlyCommit hearly
  | prepared hearly hwr hmark =>
    rw [metadata_markOperationsAsCommitted hmark, state_enqueueWrites hwr,
      ← metadata_earlyCommit hearly]
    rfl

end

/-- An update of another replica is quiet. -/
lemma quiet_updateReplica (hcall : request.callerUuid ≠ self)
    (h : r.updateReplica self cfg request ctx = some (r', result)) :
    Quiet self r.state r'.state := by
  obtain ⟨r₁, check, hchk, hrest⟩ := updateReplica_cases h
  have hr₁ : Quiet self r.state r₁.state := by
    rcases checkLeaderRequest_cases hchk with ⟨rfl, -⟩ | ⟨deduped, -, -, -, henf⟩
    · exact .refl self r.state
    have hadv := (r.updateClock request.propagatedHybridTime).quiet_handleTermAdvance self
      request.callerTerm
    refine hadv.trans ?_
    rcases henf.metadata with hsame | hlead
    · exact .of_metadata_eq hsame
    · exact (quiet_leaderUuid (by simpa using hcall)).trans (.of_metadata_eq hlead)
  rcases hrest with ⟨rfl, -⟩ | ⟨deduped, -, happl⟩
  · exact hr₁
  · exact hr₁.trans (.of_metadata_eq happl.metadata)

omit [DecidableEq ι] in
/-- The commit index in the log does not change the state. -/
lemma state_writeCommittedOpId {changed : Bool} (h : r.writeCommittedOpId changed = some r') :
    r'.state = r.state := by
  simp only [writeCommittedOpId] at h
  split_ifs at h
  · obtain ⟨⟨queue, log⟩, -, rfl⟩ := map_eq_some_iff.1 h
    rfl
  · cases h
    rfl

/-- A leader that commits keeps its term and its vote. -/
lemma metadata_updateMajorityReplicated {data : MajorityReplicatedData} {ctx : ApplyContext}
    (h : r.updateMajorityReplicated self cfg data ctx = some r') :
    r'.state.metadata = r.state.metadata := by
  have hmaj :
      ∀ {ok s}, (r.setMajorityReplicatedLeases cfg data).updateMajorityReplicated ctx data.opId =
        some (ok, s) → s.metadata = r.state.metadata :=
    fun hmaj => (ReplicaState.metadata_updateMajorityReplicated hmaj).trans rfl
  simp only [updateMajorityReplicated] at h
  split_ifs at h
  · split at h
    · cases h
    · rename_i s hs
      cases h
      exact hmaj hs
    · rename_i s hs
      obtain ⟨r₁, hwrite, rfl⟩ := map_eq_some_iff.1 h
      have hr₁ := state_writeCommittedOpId hwrite
      exact (congrArg metadata hr₁).trans (hmaj hs)
  · cases h
    rfl

/-- The notifications of the queue are quiet. -/
lemma quiet_runNotification {ctx : ApplyContext}
    (h : r.runNotification self cfg ctx = some r') : Quiet self r.state r'.state := by
  simp only [runNotification] at h
  split at h
  · cases h
  rename_i n rest hrest
  split_ifs at h
  · split at h
    · have hs := metadata_updateMajorityReplicated h
      exact .of_metadata_eq hs
    · rename_i term
      cases h
      have hq := (r.withQueue { r.queue with notifications := rest }).quiet_handleTermAdvance
        self term
      exact hq
  · cases h
    exact .refl self r.state

end RaftConsensus
