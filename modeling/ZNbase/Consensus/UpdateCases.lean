import ZNbase.Consensus.UpdateReplica

/-!
# How an update can end

`UpdateReplica` checks a request, changes the replica and may end after each of these steps. The
relations of this module say once how each part can end: `Enforced` for the check of the operations
in the caller's term, and `Applied` for a request that is accepted. What an update keeps is then
shown by cases.
-/

open Option

namespace RaftConsensus

variable {ι : Type*}

/-- A replica that knows the leader of its term. -/
def withLeader (r : RaftConsensus ι) (caller : ι) : RaftConsensus ι :=
  { r with state := { r.state with leaderUuid := some caller } }

/-- `EarlyCommitUnlocked`, once the caller is acknowledged. -/
def earlyCommit (r : RaftConsensus ι) (cfg : RaftConfig ι) (request : ConsensusRequest ι)
    (deduped : LeaderRequest) (ctx : UpdateContext) : Option (Bool × ReplicaState ι) :=
  (r.acknowledgeLeader cfg request ctx.now).state.advanceCommittedOpId ctx.earlyCommit
    (earlyApplyUpTo (r.acknowledgeLeader cfg request ctx.now).state request deduped) true

section Relations

variable (r : RaftConsensus ι) (self : ι) (cfg : RaftConfig ι) (caller : ι)
  (request : ConsensusRequest ι) (prevCommitted : OpId) (deduped : LeaderRequest) (tie : ℕ)
  (ctx : UpdateContext)

/-- How `EnforceLogMatchingPropertyMatchesUnlocked`, and what follows it, can end. -/
inductive Enforced [DecidableEq ι] : RaftConsensus ι → CheckResult → Prop
  | failed : Enforced r .failed
  | missing : Enforced r (.error .precedingEntryDidntMatch)
  | mismatch {state : ReplicaState ι}
      (hpreceding : r.state.isOpCommittedOrPending deduped.precedingOpId = some .termMismatch)
      (habort : r.state.abortOpsAfter (deduped.precedingOpId.index - 1) = some state) :
      Enforced { r with state := state } (.error .precedingEntryDidntMatch)
  | accepted
      (hpreceding : r.state.isOpCommittedOrPending deduped.precedingOpId = some .committedOrPending)
      (hfirst : ∀ first ∈ deduped.messages.head?,
        r.state.isOpCommittedOrPending first.id = some .missing) :
      Enforced (r.withLeader caller) (.accepted deduped)
  | aborted {first : ReplicateMsg} {state : ReplicaState ι} {log : Log}
      {callbacks : List AppendCallback} {queue : PeerMessageQueue ι}
      (hpreceding : r.state.isOpCommittedOrPending deduped.precedingOpId = some .committedOrPending)
      (hfirst : deduped.messages.head? = some first)
      (hmismatch : r.state.isOpCommittedOrPending first.id = some .termMismatch)
      (habort : r.state.abortOpsAfter deduped.precedingOpId.index = some state)
      (hlog : r.log.resetLastSyncedEntryOpId deduped.precedingOpId = (callbacks, log))
      (hqueue : runCallbacks r.queue self cfg log tie callbacks = some queue) :
      Enforced (withLeader { r with state := state, log := log, queue := queue } caller)
        (.accepted deduped)

/-- How a request that is accepted can end: the early commit stops, no operation can be prepared, or
the operations that are prepared go to the log. -/
inductive Applied : RaftConsensus ι → Option UpdateReplicaResult → Prop
  | stopped {s : ReplicaState ι} (hearly : r.earlyCommit cfg request deduped ctx =
    some (false, s)) :
      Applied { r.acknowledgeLeader cfg request ctx.now with state := s } none
  | unprepared {s : ReplicaState ι} {clock : Option HybridTime} {response : ConsensusResponse}
      (hearly : r.earlyCommit cfg request deduped ctx = some (true, s))
      (hresponse : response.status.error = some .cannotPrepare) :
      Applied (updateClock { r.acknowledgeLeader cfg request ctx.now with state := s } clock)
        (some { response := response })
  | prepared {s s' : ReplicaState ι} {clock : Option HybridTime} {r₂ : RaftConsensus ι} {ok : Bool}
      {result : Option UpdateReplicaResult}
      (hearly : r.earlyCommit cfg request deduped ctx = some (true, s))
      (hwrites : enqueueWrites
        { ({ r.acknowledgeLeader cfg request ctx.now with state := s } :
              RaftConsensus ι).updateClock clock with
          state := { s with
            pendingOperations := s.pendingOperations ++ deduped.messages.take ctx.numPrepared } }
        request prevCommitted (deduped.messages.take ctx.numPrepared) = some r₂)
      (hmark : markOperationsAsCommitted r₂.state request
        { deduped with messages := deduped.messages.take ctx.numPrepared } ctx.markCommitted =
          some (ok, s'))
      (hresult : ∀ res, result = some res →
        res.response = fillConsensusResponse { r₂ with state := s' } none) :
      Applied { r₂ with state := s' } result

end Relations

variable [DecidableEq ι] {r r' : RaftConsensus ι} {self caller : ι} {cfg : RaftConfig ι}
  {request : ConsensusRequest ι} {deduped : LeaderRequest} {check : CheckResult} {tie : ℕ}
  {prevCommitted : OpId} {ctx : UpdateContext} {result : Option UpdateReplicaResult}

lemma acceptLeader_eq (h : r.acceptLeader caller deduped = some (r', check)) :
    r' = r.withLeader caller ∧ check = .accepted deduped := by
  simp only [acceptLeader] at h
  split at h
  · rename_i hlead
    split_ifs at h with heq
    cases h
    rw [withLeader, ← heq, ← hlead]
    exact ⟨rfl, rfl⟩
  · cases h
    exact ⟨rfl, rfl⟩

/-- The outcomes of the checks of an update. -/
lemma enforced_of_enforceLogMatchingProperty
    (h : r.enforceLogMatchingProperty self cfg caller deduped tie = some (r', check)) :
    Enforced r self cfg caller deduped tie r' check := by
  simp only [enforceLogMatchingProperty] at h
  split at h
  · cases h
  · -- the preceding operation is there; the first new one decides
    rename_i hprec
    simp only [checkFirstMessage] at h
    split at h
    · rename_i hnil
      obtain ⟨rfl, rfl⟩ := acceptLeader_eq h
      exact .accepted hprec (by simp [hnil])
    rename_i first rest hmsgs
    split at h
    · cases h
    · cases h
      exact .failed
    · -- the replica has another operation in its place
      rename_i hmissing
      obtain ⟨rfl, rfl⟩ := acceptLeader_eq h
      exact .accepted hprec (by simpa [hmsgs] using hmissing)
    · -- the preceding operation is another one
      rename_i hmis
      simp only [bind_eq_bind, bind_eq_some_iff] at h
      obtain ⟨state, habt, queue, hque, h⟩ := h
      obtain ⟨rfl, rfl⟩ := acceptLeader_eq h
      exact .aborted hprec (by simp [hmsgs]) hmis habt rfl hque
  · cases h
    exact .missing
  · rename_i hmis
    obtain ⟨state, habt, heq⟩ := bind_eq_some_iff.1 h
    cases heq
    exact .mismatch hmis habt

omit [DecidableEq ι] in
/-- What is written to the log goes through the queue. -/
lemma enqueueWrites_cases {msgs : List ReplicateMsg}
    (h : r.enqueueWrites request prevCommitted msgs = some r') :
    r' = r ∧ msgs = [] ∨ ∃ queue log committed, r.queue.appendOperations r.log msgs committed =
      some (queue, log) ∧
        r' = { r with queue := queue, log := log } := by
  simp only [enqueueWrites] at h
  split_ifs at h with hwrite
  · simp only [bind_eq_bind, bind_eq_some_iff, Option.some.injEq] at h
    obtain ⟨⟨queue, log⟩, happ, rfl⟩ := h
    exact .inr ⟨queue, log, _, happ, rfl⟩
  · cases h
    simp only [not_or, not_not] at hwrite
    exact .inl ⟨rfl, hwrite.1⟩

/-- A request is turned down at once, or it is looked at in the term of the caller. -/
lemma checkLeaderRequest_cases (h : r.checkLeaderRequest self cfg request tie = some (r', check)) :
    (r' = r ∧ ∀ d, check ≠ .accepted d) ∨ ∃ deduped, deduplicateLeaderRequest r.state request =
      some deduped ∧
      checkOpIdSequence deduped.precedingOpId deduped.messages = true ∧
      r.state.currentTerm ≤ request.callerTerm ∧
      Enforced (r.handleTermAdvance self request.callerTerm) self cfg request.callerUuid deduped tie
        r' check := by
  simp only [checkLeaderRequest] at h
  split at h
  · cases h
    exact .inl ⟨rfl, by simp⟩
  rename_i deduped hdeduped
  split_ifs at h with hseq hterm
  · cases h
    exact .inl ⟨rfl, by simp⟩
  · exact .inr ⟨deduped, hdeduped, hseq, not_lt.1 hterm, enforced_of_enforceLogMatchingProperty h⟩
  · cases h
    exact .inl ⟨rfl, by simp⟩

omit [DecidableEq ι] in
/-- The outcomes of an update that is accepted. -/
lemma applied_of_applyLeaderRequest
    (h : r.applyLeaderRequest cfg request prevCommitted deduped ctx = some (r', result)) :
    Applied r cfg request prevCommitted deduped ctx r' result := by
  simp only [applyLeaderRequest, bind_eq_bind, bind_eq_some_iff] at h
  obtain ⟨⟨ok, s⟩, hearly, h⟩ := h
  cases ok with
  | false =>
    cases h
    exact .stopped hearly
  | true =>
    simp only [if_true, enqueuePrepares] at h
    split_ifs at h
    · cases h
      exact .unprepared hearly rfl
    · simp only [finishUpdate, bind_eq_bind, bind_eq_some_iff] at h
      obtain ⟨r₂, hwr, ⟨ok, s'⟩, hmark, h⟩ := h
      cases ok <;> cases h <;> exact .prepared hearly hwr hmark (by simp)

/-- An update ends with the check of the request, or goes on with a request that is accepted. -/
lemma updateReplica_cases (h : r.updateReplica self cfg request ctx = some (r', result)) :
    ∃ r₁ check, (r.updateClock request.propagatedHybridTime).checkLeaderRequest self cfg request
        ctx.tie = some (r₁, check) ∧
      ((r' = r₁ ∧ (∀ d, check ≠ .accepted d) ∧ ∀ res, result = some res →
        res.response.status.error ≠ none) ∨
        ∃ deduped, check = .accepted deduped ∧
          Applied r₁ cfg request r.state.lastCommittedOpId deduped ctx r' result) := by
  simp only [updateReplica, bind_eq_bind, bind_eq_some_iff] at h
  obtain ⟨⟨r₁, check⟩, hchk, h⟩ := h
  refine ⟨r₁, check, hchk, ?_⟩
  cases check with
  | failed =>
    cases h
    exact .inl ⟨rfl, by simp, by simp⟩
  | error code =>
    cases h
    exact .inl ⟨rfl, by simp, by simp [fillConsensusResponse]⟩
  | accepted deduped => exact .inr ⟨deduped, rfl, applied_of_applyLeaderRequest h⟩

end RaftConsensus
