import Mathlib.Algebra.Order.BigOperators.Group.List
import Mathlib.Algebra.Order.Group.Nat
import ZNbase.Consensus.RoundConsensus

/-!
# Taking rounds back

What is left of a batch of rounds that could not be appended, and of a split operation that is no
longer in the log.

`AppendNewRoundsToQueueUnlocked` gives the ids of its batch back one by one, the last one first.
`Batch s₀ s added` is its loop invariant: the state `s` is `s₀` with the rounds `added`. Neither the
registration of a write nor the last received id is part of what is given back, so the states from
which everything comes back are those with nothing of the two to give back.
-/

open List

namespace ClientRetryableRequests

variable {c : ClientRetryableRequests} {w : WriteRequest}

/-- The number of running requests and of the rounds that wait for them. -/
def runningSize (c : ClientRetryableRequests) : ℕ :=
  (c.running.map fun q => q.duplicateRounds.length + 1).sum

/-- Dropping the ranges below `m` does not change what follows `id`, for `id` from `m` on. -/
lemma fromId_fromId {ranges : List ReplicatedRetryableRequestRange} {m id : RetryableRequestId}
    (hm : m ≤ id) : fromId (fromId ranges m) id = fromId ranges id := by
  induction ranges with
  | nil => rfl
  | cons r rest ih =>
    by_cases hr : r.lastId < m
    · have hr' : r.lastId < id := hr.trans_le hm
      simpa [fromId, hr, hr'] using ih
    · simp [fromId, hr]

/-- A cleanup changes nothing about the ids from the new smallest running id on. -/
lemma isReplicated_cleanupReplicatedRequests {m id : RetryableRequestId} (hm : m ≤ id) :
    (c.cleanupReplicatedRequests m).isReplicated id = c.isReplicated id := by
  rw [cleanupReplicatedRequests]
  split_ifs with hlt
  · have hfrom : fromId (fromId c.replicated m) id = fromId c.replicated id := fromId_fromId hm
    rw [isReplicated, isReplicated, ← hfrom]
    cases fromId c.replicated m with
    | nil => rfl
    | cons r after =>
      simp only
      split_ifs with hfirst
      · -- the range that contains `m` now starts there
        by_cases hlast : r.lastId < id
        · simp [fromId, hlast]
        · simpa [fromId, hlast, hm] using hfirst.le.trans hm
      · rfl
  · rfl

/-- A round that waits for a running request is one more. -/
lemma sum_lt_sum_addDuplicate (p : RunningRetryableRequest → Bool) (round : RetryableRound)
    {running : List RunningRetryableRequest} (h : running.any p) :
    (running.map fun q => q.duplicateRounds.length + 1).sum <
      ((running.map fun q => if p q then { q with duplicateRounds := q.duplicateRounds ++ [round] }
        else q).map fun q => q.duplicateRounds.length + 1).sum := by
  obtain ⟨q, hq, hp⟩ := any_eq_true.1 h
  rw [map_map]
  refine List.sum_lt_sum _ _ (fun q _ => ?_) ⟨q, hq, by simp [hp]⟩
  rw [Function.comp_apply]
  split_ifs <;> simp

/-- A request that is added, or that waits for one with its id or its operation id, is one more. -/
lemma runningSize_emplaceRunning (q : RunningRetryableRequest) (round : RetryableRound) :
    c.runningSize < (c.emplaceRunning q round).1.runningSize := by
  rw [emplaceRunning]
  split_ifs with hid hop
  · exact sum_lt_sum_addDuplicate _ round hid
  · exact sum_lt_sum_addDuplicate _ round hop
  · simp [runningSize]

/-- A request that is expired or replicated leaves the running ones as they are, and every other
request leaves one more. -/
lemma register_spec (round : RetryableRound) (entryTime : RestartSafeCoarseTimePoint) :
    (c.register round w entryTime).1.minRunningRequestId =
        max c.minRunningRequestId w.minRunningRequestId ∧
      (∀ id, w.minRunningRequestId ≤ id →
        (c.register round w entryTime).1.isReplicated id = c.isReplicated id) ∧
      ((w.requestId < max c.minRunningRequestId w.minRunningRequestId ∨
        c.isReplicated w.requestId) ∧
          (c.register round w entryTime).1.running = c.running ∨
        ¬(w.requestId < max c.minRunningRequestId w.minRunningRequestId ∨
            c.isReplicated w.requestId) ∧
          c.runningSize < (c.register round w entryTime).1.runningSize) := by
  have hmin := minRunningRequestId_cleanupReplicatedRequests c w.minRunningRequestId
  have hsame : ∀ id, w.minRunningRequestId ≤ id →
      (c.cleanupReplicatedRequests w.minRunningRequestId).isReplicated id = c.isReplicated id :=
    fun id => isReplicated_cleanupReplicatedRequests
  simp only [register, hmin]
  split_ifs with hexp hrepl
  · -- the client no longer waits for the request
    exact ⟨hmin, hsame, .inl ⟨.inl hexp, running_cleanupReplicatedRequests c _⟩⟩
  · rw [hsame _ ((le_max_right _ _).trans (not_lt.1 hexp))] at hrepl
    exact ⟨hmin, hsame, .inl ⟨.inr hrepl, running_cleanupReplicatedRequests c _⟩⟩
  · -- the request is running now, or waits for one with its id
    rw [hsame _ ((le_max_right _ _).trans (not_lt.1 hexp))] at hrepl
    have hsize : (c.cleanupReplicatedRequests w.minRunningRequestId).runningSize =
        c.runningSize := by
      simp [runningSize]
    refine ⟨?_, fun id hid => ?_, .inr ⟨not_or.2 ⟨hexp, hrepl⟩, ?_⟩⟩
    · rw [emplaceRunning]
      split_ifs <;> exact hmin
    · rw [← hsame id hid, emplaceRunning]
      split_ifs <;> rfl
    · rw [← hsize]
      exact runningSize_emplaceRunning _ round

end ClientRetryableRequests

/-- The request of a client that the round carries. -/
def ConsensusRound.request (round : ConsensusRound) : Option WriteRequest :=
  round.retryable.replicateMsg.replicateData

namespace RetryableRequests

variable {rr rr' rr'' : RetryableRequests} {seen : List WriteRequest} {round : ConsensusRound}
  {w : WriteRequest}

/-- A request that is replicated, or that its client no longer waits for. The client says so with
each of its writes, and `seen` are those before this one. -/
def Finished (rr : RetryableRequests) (seen : List WriteRequest) (w : WriteRequest) : Prop :=
  w.requestId < (rr.clients w.clientId).minRunningRequestId ∨
    (rr.clients w.clientId).isReplicated w.requestId ∨
    ∃ w' ∈ seen ++ [w], w'.clientId = w.clientId ∧ w.requestId < w'.minRunningRequestId

/-- The running requests are the same, with the rounds that wait for them. -/
def SameRunning (rr rr' : RetryableRequests) : Prop :=
  ∀ client, (rr'.clients client).running = (rr.clients client).running

/-- No running request and no round that waits for one is gone. -/
def Grows (rr rr' : RetryableRequests) : Prop :=
  ∀ client, (rr.clients client).runningSize ≤ (rr'.clients client).runningSize

lemma SameRunning.grows (h : rr.SameRunning rr') : rr.Grows rr' :=
  fun client => by rw [ClientRetryableRequests.runningSize, ClientRetryableRequests.runningSize, h]

/-- Requests that are running stay so. -/
lemma Grows.trans (h : rr.Grows rr') (h' : rr'.Grows rr'') : rr.Grows rr'' :=
  fun client => (h client).trans (h' client)

/-- What is replicated and what clients no longer wait for, once the writes `seen` are
registered. -/
structure Seen (seen : List WriteRequest) (rr rr' : RetryableRequests) : Prop where
  lt_minRunning : ∀ client id, id < (rr'.clients client).minRunningRequestId ↔
    id < (rr.clients client).minRunningRequestId ∨
      ∃ w ∈ seen, w.clientId = client ∧ id < w.minRunningRequestId
  isReplicated : ∀ client id, (rr'.clients client).minRunningRequestId ≤ id →
    (rr'.clients client).isReplicated id = (rr.clients client).isReplicated id

lemma Seen.refl (rr : RetryableRequests) : Seen [] rr rr := ⟨by simp, fun _ _ _ => rfl⟩

/-- Registering one more write leaves the running requests as they are exactly if it is finished. -/
lemma Seen.register (entryTime : RestartSafeCoarseTimePoint) (h : rr.Seen seen rr')
    (hreq : round.request = some w) :
    rr.Seen (seen ++ [w]) (rr'.register round.retryable entryTime).1 ∧
      (rr.Finished seen w ∧ rr'.SameRunning (rr'.register round.retryable entryTime).1 ∨
        ¬rr.Finished seen w ∧ rr'.Grows (rr'.register round.retryable entryTime).1 ∧
          ¬(rr'.register round.retryable entryTime).1.Grows rr') := by
  have hdata : round.retryable.replicateMsg.replicateData = some w := hreq
  obtain ⟨hmin, hrepl, heffect⟩ := (rr'.clients w.clientId).register_spec (w := w)
    round.retryable entryTime
  -- what the client answers is what `Finished` says
  have hfinished : rr.Finished seen w ↔
      w.requestId < max (rr'.clients w.clientId).minRunningRequestId w.minRunningRequestId ∨
        (rr'.clients w.clientId).isReplicated w.requestId := by
    by_cases hlt : w.requestId < (rr'.clients w.clientId).minRunningRequestId
    · refine iff_of_true ?_ (.inl (lt_max_of_lt_left hlt))
      rcases (h.lt_minRunning _ _).1 hlt with hold | ⟨w', hw', hclient⟩
      · exact .inl hold
      · exact .inr (.inr ⟨w', mem_append_left _ hw', hclient⟩)
    · rw [h.isReplicated _ _ (not_lt.1 hlt), lt_max_iff, or_iff_right hlt, Finished]
      rw [h.lt_minRunning, not_or] at hlt
      rw [or_iff_right hlt.1, or_comm]
      refine or_congr_left ⟨?_, fun hown => ⟨w, by simp, rfl, hown⟩⟩
      rintro ⟨w', hw', hclient⟩
      rcases mem_append.1 hw' with hw' | hw'
      · exact absurd ⟨w', hw', hclient⟩ hlt.2
      · exact mem_singleton.1 hw' ▸ hclient.2
  rw [RetryableRequests.register, hdata]
  refine ⟨⟨fun client id => ?_, fun client id hid => ?_⟩, ?_⟩
  · rw [setClient_clients]
    split_ifs with hclient
    · rw [hmin, lt_max_iff, ← hclient, h.lt_minRunning]
      simp [or_and_right, exists_or, or_assoc, hclient]
    · rw [h.lt_minRunning]
      simp [or_and_right, exists_or, Ne.symm hclient]
  · rw [setClient_clients] at hid ⊢
    split_ifs at hid ⊢ with hclient
    · rw [hmin, max_le_iff] at hid
      rw [hrepl id hid.2, ← hclient]
      exact h.isReplicated client id (hclient ▸ hid.1)
    · exact h.isReplicated client id hid
  · rw [hfinished]
    refine heffect.imp (And.imp_right fun hrun client => ?_) (And.imp_right fun hlt => ⟨?_, ?_⟩)
    · rw [setClient_clients]
      split_ifs with hclient
      · rw [hrun, hclient]
      · rfl
    · intro client
      rw [setClient_clients]
      split_ifs with hclient
      · rw [hclient]
        exact hlt.le
      · exact le_rfl
    · intro hgrows
      have hle := hgrows w.clientId
      rw [setClient_clients, if_pos rfl] at hle
      exact absurd hlt (not_lt.2 hle)

/-- A write that is registered, and those after it. -/
lemma sameRunning_iff_of_step {finished later : Prop}
    (hstep : finished ∧ rr.SameRunning rr' ∨ ¬finished ∧ rr.Grows rr' ∧ ¬rr'.Grows rr)
    (hrest : rr'.Grows rr'' ∧ (rr'.SameRunning rr'' ↔ later)) :
    rr.Grows rr'' ∧ (rr.SameRunning rr'' ↔ finished ∧ later) := by
  rcases hstep with ⟨hfinished, hsame⟩ | ⟨hnot, hgrows, hmore⟩
  · refine ⟨hsame.grows.trans hrest.1, ?_⟩
    rw [and_iff_right hfinished, ← hrest.2]
    exact forall_congr' fun client => by rw [hsame client]
  · refine ⟨hgrows.trans hrest.1, iff_of_false (fun hsame => hmore ?_) fun h => hnot h.1⟩
    have hback : rr''.Grows rr := SameRunning.grows fun client => (hsame client).symm
    exact hrest.1.trans hback

end RetryableRequests

variable {queueStatus : QueueStatus}

namespace RoundState

variable {s₀ s s' : RoundState} {env : RoundEnv} {clock : RoundClock} {round : ConsensusRound}
  {added : List ConsensusRound} {seen : List WriteRequest}
  {rounds : List (RoundClock × ConsensusRound)} {info : SplitOpInfo}

/-! ## Giving ids back -/

/-- The id that the `n`-th round added to `s₀` gets. -/
def nthId (s₀ : RoundState) (n : ℕ) : OpId := ⟨s₀.core.currentTerm, s₀.core.nextIndex + n⟩

/-- The split operation, if there is one, is an operation before the next one. -/
def SplitBelowNext (s₀ : RoundState) : Prop :=
  s₀.splitOpInfo = {} ∨
    s₀.splitOpInfo.opId ≠ OpId.min0 ∧ s₀.splitOpInfo.opId < s₀.nthId 0

/-- The state `s` is `s₀` with the rounds `added`. -/
structure Batch (s₀ s : RoundState) (added : List ConsensusRound) : Prop where
  currentTerm : s.core.currentTerm = s₀.core.currentTerm
  nextIndex : s.core.nextIndex = s₀.core.nextIndex + added.length
  pendingOperations : s.pendingOperations = s₀.pendingOperations ++ added
  ids : added.map (·.id) = (List.range added.length).map s₀.nthId
  splitOpInfo : s.splitOpInfo = s₀.splitOpInfo ∨
    s₀.splitOpInfo = {} ∧ ∃ round ∈ added, round.id = s.splitOpInfo.opId

/-- A batch without rounds. -/
lemma Batch.refl (s₀ : RoundState) : Batch s₀ s₀ [] where
  currentTerm := rfl
  nextIndex := rfl
  pendingOperations := (append_nil _).symm
  ids := rfl
  splitOpInfo := .inl rfl

/-- The split operation once the id of the `n`-th round is given back. It is gone if this was the
round that had set it. -/
lemma Batch.splitOpInfo_cancel {before : List ConsensusRound} (hspl : s₀.SplitBelowNext)
    (h : Batch s₀ s before) {n : ℕ}
    (hmem : ∀ round ∈ before, round ∈ added ∨ round.id = s₀.nthId n)
    (hinfo : info = if s₀.nthId n = s.splitOpInfo.opId then {} else s.splitOpInfo) :
    info = s₀.splitOpInfo ∨ s₀.splitOpInfo = {} ∧ ∃ round ∈ added, round.id = info.opId := by
  by_cases hid : s₀.nthId n = s.splitOpInfo.opId
  · rw [if_pos hid] at hinfo
    left
    rcases h.splitOpInfo with hsame | ⟨hemp, -⟩
    · rcases hspl with hemp | ⟨-, hbel⟩
      · rw [hinfo, hemp]
      · -- an operation before the batch is not the `n`-th one
        rw [← hsame, ← hid, OpId.lt_def] at hbel
        simp only [nthId] at hbel
        omega
    · rw [hinfo, hemp]
  · rw [if_neg hid] at hinfo
    subst hinfo
    rcases h.splitOpInfo with hsame | ⟨hemp, round, hrnd, hroundId⟩
    · exact .inl hsame
    · rcases hmem round hrnd with hadded | hn
      · exact .inr ⟨hemp, round, hadded, hroundId⟩
      · exact absurd (hn.symm.trans hroundId) hid

/-- Giving back the id of a round that was not added. -/
lemma Batch.cancel_new (h : Batch s₀ s added) (hspl : s₀.SplitBelowNext)
    (hcan : s.newId.2.cancelPendingOperation (s₀.nthId added.length) false = some s') :
    Batch s₀ s' added ∧ s'.core.lastReceivedOpId =
      ⟨s₀.core.currentTerm, s₀.core.nextIndex + added.length - 1⟩ := by
  obtain ⟨-, -, rfl⟩ := cancelPendingOperation_spec hcan
  exact ⟨{
    currentTerm := h.currentTerm
    nextIndex := rfl
    pendingOperations := h.pendingOperations
    ids := h.ids
    splitOpInfo := h.splitOpInfo_cancel hspl (fun round hrnd => .inl hrnd) rfl }, rfl⟩

/-- The ids of a batch, with that of its last round. -/
lemma Batch.ids_concat (h : Batch s₀ s (added ++ [round])) :
    added.map (·.id) = (List.range added.length).map s₀.nthId ∧
      round.id = s₀.nthId added.length := by
  have hids := h.ids
  rw [length_append, length_singleton, range_succ, map_append, map_append] at hids
  obtain ⟨hadded, hrnd⟩ := append_inj hids (by simp)
  exact ⟨hadded, head_eq_of_cons_eq hrnd⟩

/-- Giving back the id of the last round that was added. -/
lemma Batch.cancel_last (h : Batch s₀ s (added ++ [round]))
    (hspl : s₀.SplitBelowNext) (hcan : s.cancelPendingOperation round.id true = some s') :
    Batch s₀ s' added ∧ s'.core.lastReceivedOpId =
      ⟨s₀.core.currentTerm, s₀.core.nextIndex + added.length - 1⟩ := by
  obtain ⟨hadded, hrnd⟩ := h.ids_concat
  rw [hrnd] at hcan
  obtain ⟨-, -, rfl⟩ := cancelPendingOperation_spec hcan
  -- only the cancelled round has the cancelled id
  have hmem : ∀ r ∈ added ++ [round], r ∈ added ∨ r.id = s₀.nthId added.length := by
    intro r hr
    rcases mem_append.1 hr with hr | hr
    · exact .inl hr
    · rw [mem_singleton.1 hr]
      exact .inr hrnd
  exact ⟨{
    currentTerm := h.currentTerm
    nextIndex := rfl
    pendingOperations := by
      simp [h.pendingOperations]
    ids := hadded
    splitOpInfo := h.splitOpInfo_cancel hspl hmem rfl }, rfl⟩

/-- Giving back the ids of the rounds at the end of the batch. -/
lemma Batch.rollbackIds {rest : List ConsensusRound} (hspl : s₀.SplitBelowNext)
    (h : Batch s₀ s (added ++ rest)) (hroll : s.rollbackIds rest = some s') :
    Batch s₀ s' added ∧ s'.core.lastReceivedOpId =
      if rest = [] then s.core.lastReceivedOpId
      else ⟨s₀.core.currentTerm, s₀.core.nextIndex + added.length - 1⟩ := by
  induction rest generalizing added s' with
  | nil =>
    cases hroll
    exact ⟨by simpa using h, rfl⟩
  | cons round rest ih =>
    -- the ids after `round` go first
    obtain ⟨t, ht, hcan⟩ := Option.bind_eq_some_iff.1 hroll
    rw [append_cons] at h
    obtain ⟨hbat, -⟩ := ih h ht
    simpa using hbat.cancel_last hspl hcan

/-! ## The batch -/

/-- The next id of a state with rounds added. -/
lemma Batch.newId (h : Batch s₀ s added) : s.newId.1 = s₀.nthId added.length :=
  OpId.ext h.currentTerm h.nextIndex

/-- Adding one more round to the batch. -/
lemma Batch.add (hspl : s₀.SplitBelowNext) (h : Batch s₀ s added)
    (hid : round.id = s₀.nthId added.length)
    (hadd : s.newId.2.addPendingOperation env clock round = some (.ok (), s')) :
    Batch s₀ s' (added ++ [round]) where
  currentTerm := by
    rw [(addPendingOperation_ok hadd).core]
    exact h.currentTerm
  nextIndex := by
    rw [(addPendingOperation_ok hadd).core, length_append]
    exact congrArg (· + 1) h.nextIndex
  pendingOperations := by
    rw [(addPendingOperation_ok hadd).pendingOperations, ← append_assoc]
    exact congrArg (· ++ [round]) h.pendingOperations
  ids := by
    rw [length_append, length_singleton, range_succ, map_append, h.ids]
    simp [hid]
  splitOpInfo := by
    rcases (addPendingOperation_ok hadd).splitOpInfo with hsame | ⟨hmin, hrnd, -⟩
    · rw [hsame]
      rcases h.splitOpInfo with hsplitInfo | ⟨hemp, r, hr, hrId⟩
      · exact .inl hsplitInfo
      · exact .inr ⟨hemp, r, mem_append_left _ hr, hrId⟩
    · -- only without a split operation is one added
      refine .inr ⟨?_, round, by simp, hrnd.symm⟩
      rcases h.splitOpInfo with hsplitInfo | ⟨hemp, -⟩
      · rcases hspl with hemp | ⟨hne, -⟩
        · exact hemp
        · exact absurd ((congrArg SplitOpInfo.opId hsplitInfo).symm.trans hmin) hne
      · exact hemp

/-- `Batch` is an invariant of the batch, and its ids can be given back. -/
lemma batchInvariant_batch (hspl : s₀.SplitBelowNext) :
    BatchInvariant env rounds (Batch s₀) fun s added =>
      s.core.lastReceivedOpId = ⟨s₀.core.currentTerm, s₀.core.nextIndex + added.length - 1⟩ where
  add {s s' added clock round} _ h hok := h.add hspl h.newId hok
  cancel {s t s' added clock round e} _ h herr hcan := by
    rw [h.newId] at hcan
    -- the round left nothing but a trace in the requests
    rcases addPendingOperation_error herr with rfl | ⟨-, rfl, -⟩
    · exact h.cancel_new hspl hcan
    · have hregistered : Batch s₀
          { s with retryableRequests := s.registered clock { round with id := s.newId.1 } } added :=
        { h with }
      exact hregistered.cancel_new hspl hcan
  rollbackIds {s s' added} h hlast hroll := by
    have hall : Batch s₀ s ([] ++ added) := h
    obtain ⟨hback, hrecv⟩ := hall.rollbackIds hspl hroll
    refine ⟨hback, ?_⟩
    rw [hrecv]
    split_ifs with hemp
    · rw [hlast hemp, hemp]
    · rfl

/-! ## What is registered -/

/-- A state on the way of a leader through a batch. -/
structure Reached (s₀ s : RoundState) : Prop where
  core : ∃ nextIndex last, 0 < nextIndex ∧
    s.core = { s₀.core with nextIndex := nextIndex, lastReceivedOpId := last }
  committedConfig : s.committedConfig = s₀.committedConfig
  pendingConfig : s.pendingConfig = s₀.pendingConfig

/-- No write of a batch brings a request that its client waits for. A round for which there is no
lease is the last one of a batch, and after a split operation no write is registered. -/
def NoneWaitedFor (s : RoundState) (env : RoundEnv) :
    List WriteRequest → List (RoundClock × ConsensusRound) → Prop
  | _, [] => True
  | seen, (clock, round) :: rest =>
    round.payload.needsLease ∧ s.oldLeaderMayHaveLease env clock round.hybridTime ∨
      (∀ w ∈ round.request, s.retryableRequests.Finished seen w) ∧
        ((∃ request, round.payload = .splitOp request) ∨
          NoneWaitedFor s env (seen ++ round.request.toList) rest)

/-- A cancellation does not change the running requests. -/
lemma retryableRequests_cancelPendingOperation {id : OpId} {shouldExist : Bool}
    (h : s.cancelPendingOperation id shouldExist = some s') :
    s'.retryableRequests = s.retryableRequests := by
  obtain ⟨-, -, rfl⟩ := cancelPendingOperation_spec h
  rfl

/-- Where no split operation was noted, none is noted when an operation is cancelled. -/
lemma opId_of_cancelPendingOperation {id : OpId} {shouldExist : Bool}
    (h : s.cancelPendingOperation id shouldExist = some s')
    (hsplit : s.splitOpInfo.opId = OpId.min0) : s'.splitOpInfo.opId = OpId.min0 := by
  obtain ⟨-, -, rfl⟩ := cancelPendingOperation_spec h
  dsimp only
  split_ifs
  · rfl
  · exact hsplit

/-- Giving ids back does not undo a registration. -/
lemma retryableRequests_rollbackIds {rest : List ConsensusRound}
    (h : s.rollbackIds rest = some s') : s'.retryableRequests = s.retryableRequests := by
  induction rest generalizing s' with
  | nil => cases h; rfl
  | cons round rest ih =>
    obtain ⟨t, ht, hcan⟩ := Option.bind_eq_some_iff.1 h
    rw [retryableRequests_cancelPendingOperation hcan, ih ht]

/-- Once there is a split operation, a round is refused or is a `NO_OP`. -/
lemma addPendingOperation_of_split {result : Except AddPendingError Unit}
    (hsplit : s.splitOpInfo.opId ≠ OpId.min0)
    (h : s.addPendingOperation env clock round = some (result, s')) :
    (∃ e, result = .error e ∧ e ≠ .duplicateRequest) ∧ s' = s ∨
      result = .ok () ∧ s' = s.push round := by
  rw [addPendingOperation] at h
  split_ifs at h with _ hrefused
  all_goals first | cases h; exact .inl ⟨⟨_, rfl, by simp⟩, rfl⟩ | skip
  · right
    rw [addPayload] at h
    cases hpay : round.payload with
    | noOp =>
      rw [hpay] at h
      cases h
      exact ⟨rfl, rfl⟩
    | _ => simp [hsplit, hpay, RoundPayload.shouldAllowOpAfterSplitTablet] at hrefused

section

variable {result : Except AddPendingError (List ConsensusRound)} {t : RoundState}
  {rest : List (RoundClock × ConsensusRound)} {e : AddPendingError}

/-- A round that is added, and the rest of the batch. -/
lemma addRounds_of_ok
    (hok : s.newId.2.addPendingOperation env clock { round with id := s.newId.1 } =
      some (.ok (), t)) :
    addRounds env s added ((clock, round) :: rest) =
      addRounds env t (added ++ [{ round with id := s.newId.1 }]) rest := by
  simp only [addRounds, hok]

/-- A duplicate is cancelled alone. -/
lemma addRounds_of_duplicate
    (hdup : s.newId.2.addPendingOperation env clock { round with id := s.newId.1 } =
      some (.error .duplicateRequest, t))
    (h : addRounds env s added ((clock, round) :: rest) = some (result, s')) :
    ∃ u, t.cancelPendingOperation s.newId.1 false = some u ∧
      addRounds env u added rest = some (result, s') := by
  simp only [addRounds, hdup, if_true] at h
  split at h
  · cases h
  case h_2 u hcan => exact ⟨u, hcan, h⟩

/-- A round that is refused for another reason ends the batch. -/
lemma retryableRequests_addRounds_of_error
    (herr : s.newId.2.addPendingOperation env clock { round with id := s.newId.1 } =
      some (.error e, s.newId.2)) (hne : e ≠ .duplicateRequest)
    (h : addRounds env s added ((clock, round) :: rest) = some (result, s')) :
    s'.retryableRequests = s.retryableRequests := by
  simp only [addRounds, herr, if_neg hne] at h
  split at h
  · cases h
  case h_2 u hcan =>
    obtain ⟨v, hv, heq⟩ := Option.map_eq_some_iff.1 h
    cases heq
    rw [retryableRequests_rollbackIds hv, retryableRequests_cancelPendingOperation hcan]
    rfl

end

/-- Once there is a split operation, nothing is registered. -/
lemma retryableRequests_addRounds_of_split {result : Except AddPendingError (List ConsensusRound)}
    (hsplit : s.splitOpInfo.opId ≠ OpId.min0)
    (h : addRounds env s added rounds = some (result, s')) :
    s'.retryableRequests = s.retryableRequests := by
  induction rounds generalizing s added with
  | nil => cases h; rfl
  | cons head rest ih =>
    obtain ⟨clock, round⟩ := head
    have hsplit' : s.newId.2.splitOpInfo.opId ≠ OpId.min0 := hsplit
    cases hadd : s.newId.2.addPendingOperation env clock { round with id := s.newId.1 } with
    | none => simp [addRounds, hadd] at h
    | some step =>
      obtain ⟨outcome, t⟩ := step
      obtain ⟨⟨e, rfl, hne⟩, rfl⟩ | ⟨rfl, rfl⟩ := addPendingOperation_of_split hsplit' hadd
      · exact retryableRequests_addRounds_of_error hadd hne h
      · rw [addRounds_of_ok hadd] at h
        have hrest := ih (by exact hsplit) h
        exact hrest

/-- Without a split operation, only the lease of an old leader keeps a leader from looking at what
the round carries. -/
lemma addPendingOperation_of_leader (hsplit : s.splitOpInfo.opId < round.id)
    (hnone : s.splitOpInfo.opId = OpId.min0) (hlead : s.isActiveLeader env) :
    s.addPendingOperation env clock round =
      if round.payload.needsLease ∧ s.oldLeaderMayHaveLease env clock round.hybridTime then
        some (.error .leaderHasNoLease, s)
      else s.addPayload env clock round := by
  rw [addPendingOperation, if_neg (not_not.2 hsplit), if_neg (fun h => h.1 hnone)]
  simp only [hlead, true_and]

/-- What a leader does with the payload of a round: most are only added, a split operation of the
tablet is noted, and the request of a client is registered. -/
lemma addPayload_of_leader (clock : RoundClock) (round : ConsensusRound)
    (hlead : s.isActiveLeader env) :
    (round.request = none ∧ (∀ request, round.payload ≠ .splitOp request) ∧
        s.addPayload env clock round = some (.ok (), s.push round)) ∨
      (round.request = none ∧ (∃ request, round.payload = .splitOp request) ∧
        (s.addPayload env clock round = some (.error .splitOfOtherTablet, s) ∨
          ∃ info : SplitOpInfo, info.opId = round.id ∧
            s.addPayload env clock round =
              some (.ok (), { s with splitOpInfo := info }.push round))) ∨
      ∃ w, round.request = some w ∧ (∀ request, round.payload ≠ .splitOp request) ∧
        s.addPayload env clock round =
          if (s.retryableRequests.register round.retryable clock.entryTime).2.1 then
            some (.ok (), { s with retryableRequests := s.registered clock round }.push round)
          else
            some (.error .duplicateRequest,
              { s with retryableRequests := s.registered clock round }) := by
  obtain ⟨id, ht, payload, byteSize, number, boundTerm⟩ := round
  cases payload with
  | noOp | otherOp => exact .inl ⟨rfl, by simp, rfl⟩
  | changeConfigOp oldConfig newConfig => exact .inl ⟨rfl, by simp, by simp [addPayload, hlead]⟩
  | splitOp request =>
    refine .inr (.inl ⟨rfl, ⟨request, rfl⟩, ?_⟩)
    by_cases htablet : request.tabletId = env.tabletId
    · exact .inr ⟨⟨id, [request.newTablet1Id, request.newTablet2Id]⟩, rfl,
        by simp [addPayload, htablet]⟩
    · exact .inl (by simp [addPayload, htablet])
  | writeOp request =>
    cases hreq : (⟨id, ht, .writeOp request, byteSize, number, boundTerm⟩ :
        ConsensusRound).request with
    | none =>
      refine .inl ⟨rfl, by simp, ?_⟩
      have hdata : (⟨id, ht, .writeOp request, byteSize, number, boundTerm⟩ :
        ConsensusRound).retryable.replicateMsg.replicateData = none := hreq
      simp [addPayload, RetryableRequests.register, hdata]
    | some w => exact .inr (.inr ⟨w, rfl, by simp, rfl⟩)

namespace Reached

variable (h : Reached s₀ s)

include h

/-- The leader stays the leader. -/
lemma isActiveLeader : s.isActiveLeader env = s₀.isActiveLeader env := by
  obtain ⟨_, _, -, hcore⟩ := h.core
  rw [RoundState.isActiveLeader, RoundState.isActiveLeader, activeConfig, activeConfig, hcore,
    h.committedConfig, h.pendingConfig]

/-- The lease of an old leader is as before. -/
lemma oldLeaderMayHaveLease {ht : HybridTime} :
    s.oldLeaderMayHaveLease env clock ht = s₀.oldLeaderMayHaveLease env clock ht := by
  obtain ⟨_, _, -, hcore⟩ := h.core
  have hremaining : (s.core.remainingOldLeaderLeaseDuration clock.now).1 =
      (s₀.core.remainingOldLeaderLeaseDuration clock.now).1 := by
    simp only [hcore, ReplicaState.remainingOldLeaderLeaseDuration]
    split_ifs <;> rfl
  rw [RoundState.oldLeaderMayHaveLease, RoundState.oldLeaderMayHaveLease, activeConfig,
    activeConfig, ReplicaState.getLeaderLeaseStatus, hremaining, hcore, h.committedConfig,
    h.pendingConfig]
  rfl

/-- A new id has an index above zero. -/
lemma newId : Reached s₀ s.newId.2 ∧ 0 < s.newId.1.index := by
  obtain ⟨nextIndex, last, hpos, hcore⟩ := h.core
  refine ⟨⟨⟨nextIndex + 1, last, by omega, ?_⟩, h.committedConfig, h.pendingConfig⟩, ?_⟩
  · simp [RoundState.newId, ReplicaState.newId, hcore]
  · simpa [RoundState.newId, ReplicaState.newId, hcore] using hpos

lemma push : Reached s₀ (s.push round) := { h with }

/-- A cancelled operation leaves a state that can be reached. -/
lemma cancel {id : OpId} {shouldExist : Bool} (hpos : 0 < id.index)
    (hcan : s.cancelPendingOperation id shouldExist = some s') : Reached s₀ s' := by
  obtain ⟨nextIndex, last, -, hcore⟩ := h.core
  obtain ⟨-, -, rfl⟩ := cancelPendingOperation_spec hcan
  exact ⟨⟨id.index, ⟨id.term, id.index - 1⟩, hpos, by simp [hcore]⟩, h.committedConfig,
    h.pendingConfig⟩

end Reached

/-- What the rounds of a batch leave in the running requests, from a state on the way through it. It
is nothing exactly if no write brings a request that its client waits for. -/
lemma sameRunning_addRounds_iff {result : Except AddPendingError (List ConsensusRound)}
    (hlead : s₀.isActiveLeader env) (hreach : Reached s₀ s)
    (hsplit : s.splitOpInfo.opId = OpId.min0)
    (hseen : s₀.retryableRequests.Seen seen s.retryableRequests)
    (h : addRounds env s added rounds = some (result, s')) :
    s.retryableRequests.Grows s'.retryableRequests ∧
      (s.retryableRequests.SameRunning s'.retryableRequests ↔
        s₀.NoneWaitedFor env seen rounds) := by
  induction rounds generalizing s added seen with
  | nil =>
    cases h
    exact ⟨fun _ => le_rfl, iff_of_true (fun _ => rfl) trivial⟩
  | cons head rest ih =>
    obtain ⟨clock, round⟩ := head
    obtain ⟨hreach', hpos⟩ := hreach.newId
    have hid : OpId.min0 < s.newId.1 := by
      rw [OpId.lt_def, OpId.min0_term, OpId.min0_index]
      omega
    have hlead' : s.newId.2.isActiveLeader env := by rwa [hreach'.isActiveLeader]
    have hadd : s.newId.2.addPendingOperation env clock { round with id := s.newId.1 } = _ :=
      addPendingOperation_of_leader (hsplit.trans_lt hid) hsplit hlead'
    rw [hreach'.oldLeaderMayHaveLease] at hadd
    rw [NoneWaitedFor]
    by_cases hlease : round.payload.needsLease ∧ s₀.oldLeaderMayHaveLease env clock round.hybridTime
    · rw [if_pos hlease] at hadd
      rw [retryableRequests_addRounds_of_error hadd nofun h]
      exact ⟨fun _ => le_rfl, iff_of_true (fun _ => rfl) (.inl hlease)⟩
    rw [if_neg hlease] at hadd
    rw [or_iff_right hlease]
    have hrequest : round.request = ({ round with id := s.newId.1 } : ConsensusRound).request := rfl
    rcases addPayload_of_leader clock { round with id := s.newId.1 } hlead' with
      ⟨hreq, hnot, hpush⟩ | ⟨hreq, ⟨request, hpay⟩, hpush⟩ | ⟨w, hreq, hnot, hpush⟩
    · -- the round is only added
      rw [addRounds_of_ok (hadd.trans hpush)] at h
      have hrest : s.retryableRequests.Grows s'.retryableRequests ∧
          (s.retryableRequests.SameRunning s'.retryableRequests ↔ s₀.NoneWaitedFor env seen rest) :=
        ih (s := s.newId.2.push { round with id := s.newId.1 }) hreach'.push hsplit hseen h
      have hnot' : ¬∃ request, round.payload = .splitOp request := fun ⟨request, hpay⟩ =>
        hnot request hpay
      rw [hrequest, hreq, or_iff_right hnot']
      simpa using hrest
    · -- a split operation ends what is registered
      have hsame : s'.retryableRequests = s.retryableRequests := by
        rcases hpush with herr | ⟨info, hinfo, hok⟩
        · exact retryableRequests_addRounds_of_error (hadd.trans herr) nofun h
        · rw [addRounds_of_ok (hadd.trans hok)] at h
          have hne : info.opId ≠ OpId.min0 := by rw [hinfo]; exact hid.ne'
          exact retryableRequests_addRounds_of_split
            (s := RoundState.push { s.newId.2 with splitOpInfo := info } _) hne h
      rw [hsame, hrequest, hreq]
      exact ⟨fun _ => le_rfl, iff_of_true (fun _ => rfl) ⟨nofun, .inl ⟨request, hpay⟩⟩⟩
    · -- the write is registered, and is added or cancelled alone
      have hnot' : ¬∃ request, round.payload = .splitOp request := fun ⟨request, hpay⟩ =>
        hnot request hpay
      set rr := s.newId.2.registered clock { round with id := s.newId.1 } with hrr
      obtain ⟨hseen', hstep⟩ : s₀.retryableRequests.Seen (seen ++ [w]) rr ∧ _ :=
        hseen.register clock.entryTime hreq
      have hrest : rr.Grows s'.retryableRequests ∧
          (rr.SameRunning s'.retryableRequests ↔ s₀.NoneWaitedFor env (seen ++ [w]) rest) := by
        split_ifs at hpush with haccepted
        · rw [addRounds_of_ok (hadd.trans hpush)] at h
          exact ih (s := RoundState.push { s.newId.2 with retryableRequests := rr } _)
            { hreach' with } hsplit hseen' h
        · obtain ⟨u, hcan, hu⟩ := addRounds_of_duplicate (hadd.trans hpush) h
          have hreg : Reached s₀ { s.newId.2 with retryableRequests := rr } := { hreach' with }
          have hrr' : u.retryableRequests = rr := retryableRequests_cancelPendingOperation hcan
          rw [← hrr'] at hseen' ⊢
          exact ih (hreg.cancel hpos hcan) (opId_of_cancelPendingOperation hcan hsplit) hseen' hu
      rw [hrequest, hreq, or_iff_right hnot']
      simpa using RetryableRequests.sameRunning_iff_of_step hstep hrest

/-- A batch that could not be appended leaves the requests as they are once its rounds are added. -/
lemma retryableRequests_of_failed {status : AppendStatus}
    (h : s.appendNewRoundsToQueue env rounds queueStatus = some (status, s'))
    (hfailed : status = .serviceUnavailable ∨ ∃ e, status = .notAdded e) :
    ∃ result t, addRounds env s [] rounds = some (result, t) ∧
      s'.retryableRequests = t.retryableRequests := by
  rw [appendNewRoundsToQueue] at h
  split at h
  · cases h
  -- a round was rejected, and those before it are taken back
  case h_2 e t hadd =>
    cases h
    exact ⟨_, _, hadd, rfl⟩
  case h_3 added t hadd =>
    refine ⟨_, t, hadd, ?_⟩
    split at h
    · cases h
      simp at hfailed
    · cases queueStatus with
      | ok | otherError =>
        cases h
        simp at hfailed
      | serviceUnavailable =>
        -- the queue is full, and all rounds are taken back
        obtain ⟨u, hu, heq⟩ := Option.map_eq_some_iff.1 h
        cases heq
        exact retryableRequests_rollbackIds hu

/-- What every leader has: a next index, and a split operation with an id if there is one. -/
structure IsLeaderState (s : RoundState) (env : RoundEnv) : Prop where
  isActiveLeader : s.isActiveLeader env
  nextIndex : 0 < s.core.nextIndex
  splitOpInfo : s.splitOpInfo.opId = OpId.min0 → s.splitOpInfo = {}

/-- All but the running requests is as before, if the last received id is of the current term and
the next id is not that of the split operation. -/
lemma appendNewRoundsToQueue_frame {status : AppendStatus} (hleader : s.IsLeaderState env)
    (h : s.appendNewRoundsToQueue env rounds queueStatus = some (status, s'))
    (hfailed : status = .serviceUnavailable ∨ ∃ e, status = .notAdded e) :
    s'.core.nextIndex = s.core.nextIndex ∧
      s'.core.lastReceivedOpId = ⟨s.core.currentTerm, s.core.nextIndex - 1⟩ ∧
      s'.pendingOperations = s.pendingOperations ∧
      (s'.splitOpInfo = s.splitOpInfo ↔ s.splitOpInfo.opId ≠ s.nthId 0) := by
  have hpos := hleader.nextIndex
  by_cases hbelow : s.splitOpInfo.opId < s.nthId 0
  · have hspl : s.SplitBelowNext :=
      or_iff_not_imp_left.2 fun hne => ⟨fun hmin => hne (hleader.splitOpInfo hmin), hbelow⟩
    rcases (batchInvariant_batch hspl).appendNewRoundsToQueue (.refl s) h with
      ⟨hback, hlast⟩ | ⟨hstat, -⟩
    · refine ⟨hback.nextIndex, hlast, ?_, iff_of_true ?_ hbelow.ne⟩
      · rw [hback.pendingOperations, append_nil]
      · rcases hback.splitOpInfo with hsame | ⟨-, round, hrnd, -⟩
        · exact hsame
        · cases hrnd
    · rcases hfailed with rfl | ⟨e, rfl⟩ <;> simp at hstat
  · -- the first round is refused, and its id given back
    have hne : s.splitOpInfo.opId ≠ OpId.min0 := by
      intro hmin
      rw [hmin, OpId.lt_def] at hbelow
      simp only [nthId, OpId.min0_term, OpId.min0_index] at hbelow
      omega
    cases rounds with
    | nil =>
      cases h
      simp at hfailed
    | cons head rest =>
      obtain ⟨clock, round⟩ := head
      have herr : s.newId.2.addPendingOperation env clock { round with id := s.newId.1 } =
          some (.error .notAfterSplitOp, s.newId.2) := by
        rw [addPendingOperation]
        exact if_pos hbelow
      cases hcan : s.newId.2.cancelPendingOperation s.newId.1 false with
      | none => simp [appendNewRoundsToQueue, addRounds, herr, hcan] at h
      | some u =>
        obtain ⟨-, -, rfl⟩ := cancelPendingOperation_spec hcan
        simp only [appendNewRoundsToQueue, addRounds, herr, hcan, rollbackIds] at h
        cases h
        refine ⟨rfl, rfl, rfl, ?_⟩
        by_cases heq : s.nthId 0 = s.splitOpInfo.opId
        · refine iff_of_false (fun hsame => hne ?_) fun hnot => hnot heq.symm
          rw [← hsame]
          exact congrArg SplitOpInfo.opId (if_pos heq)
        · exact iff_of_true (if_neg heq) (Ne.symm heq)

/-- A batch that could not be appended leaves nothing behind, exactly if the last received id is
that of the current term before the next one, the next id is not that of the split operation, and no
write that is registered brings a request that its client waits for. -/
theorem appendNewRoundsToQueue_rollback {queueStatus : QueueStatus} {status : AppendStatus}
    (hleader : s.IsLeaderState env)
    (h : s.appendNewRoundsToQueue env rounds queueStatus = some (status, s'))
    (hfailed : status = .serviceUnavailable ∨ ∃ e, status = .notAdded e) :
    (s'.core.nextIndex = s.core.nextIndex ∧ s'.core.lastReceivedOpId = s.core.lastReceivedOpId ∧
        s'.pendingOperations = s.pendingOperations ∧ s'.splitOpInfo = s.splitOpInfo ∧
        ∀ client, (s'.retryableRequests.clients client).running =
          (s.retryableRequests.clients client).running) ↔
      s.core.lastReceivedOpId = ⟨s.core.currentTerm, s.core.nextIndex - 1⟩ ∧
        s.splitOpInfo.opId ≠ s.nthId 0 ∧
        (s.splitOpInfo.opId = OpId.min0 → s.NoneWaitedFor env [] rounds) := by
  obtain ⟨hindex, hlast, hpend, hspl⟩ := appendNewRoundsToQueue_frame hleader h hfailed
  obtain ⟨result, t, hadd, hrr⟩ := retryableRequests_of_failed h hfailed
  have hrun : s.retryableRequests.SameRunning s'.retryableRequests ↔
      (s.splitOpInfo.opId = OpId.min0 → s.NoneWaitedFor env [] rounds) := by
    rw [hrr]
    by_cases hmin : s.splitOpInfo.opId = OpId.min0
    · have hreach : Reached s s := ⟨⟨_, _, hleader.nextIndex, rfl⟩, rfl, rfl⟩
      rw [(sameRunning_addRounds_iff hleader.isActiveLeader hreach hmin (.refl _) hadd).2]
      exact ⟨fun hnone _ => hnone, fun hnone => hnone hmin⟩
    · rw [retryableRequests_addRounds_of_split hmin hadd]
      exact iff_of_true (fun _ => rfl) fun hmin' => absurd hmin' hmin
  rw [← hspl, ← hrun, hlast, eq_comm (a := OpId.mk _ _)]
  simp only [hindex, hpend, true_and]
  rfl

section Example

/-- The replica `a` of the tablet `t`. -/
def envA : RoundEnv := { tabletId := "t", peerUuid := "a" }

/-- A config whose only peer is `a`. -/
def configA : RaftConfigPB :=
  { peers := [{ permanentUuid := some "a", memberType := some .voter }] }

/-- The first request of a client. -/
def firstRequest : WriteRequest := ⟨⟨7, 7⟩, 1, 1⟩

/-- The replica as leader of a term, with a last received operation. -/
def leaderA (term : ℕ) (last : OpId) (requests : RetryableRequests) : RoundState where
  core :=
    { currentTerm := term
      leaderUuid := some "a"
      nextIndex := last.index + 1
      lastReceivedOpId := last
      lastCommittedOpId := last }
  retryableRequests := requests
  committedConfig := configA

/-- The first request of the client is running. -/
def firstRunning : RetryableRequests :=
  (RetryableRequests.init.register ⟨0, ⟨⟨1, 1⟩, some firstRequest⟩, 1⟩ 5).1

/-- A batch with a request that its client no longer waits for, which splits the tablet and then
brings a new request to it. -/
def splitBatch : List (RoundClock × ConsensusRound) :=
  [({}, { payload := .writeOp (some ⟨⟨7, 7⟩, 0, 1⟩) }),
    ({}, { payload := .splitOp ⟨"t", "t1", "t2"⟩ }),
    ({}, { payload := .writeOp (some ⟨⟨7, 7⟩, 2, 1⟩) })]

/-- A duplicate, a split operation and a write, which is rejected because of the split. -/
theorem appendNewRoundsToQueue_rollback_splitBatch :
    ∃ s', (leaderA 1 ⟨1, 1⟩ firstRunning).appendNewRoundsToQueue envA splitBatch .ok =
        some (.notAdded (.tabletSplit ⟨⟨1, 2⟩, ["t1", "t2"]⟩), s') ∧
      s'.splitOpInfo = {} ∧ s'.core.nextIndex = 2 ∧ s'.core.lastReceivedOpId = ⟨1, 1⟩ ∧
      (s'.retryableRequests.clients ⟨7, 7⟩).running = [⟨1, ⟨1, 1⟩, 5, []⟩] := by
  have hstat : ((leaderA 1 ⟨1, 1⟩ firstRunning).appendNewRoundsToQueue envA splitBatch .ok).map
      Prod.fst = some (.notAdded (.tabletSplit ⟨⟨1, 2⟩, ["t1", "t2"]⟩)) := by decide
  obtain ⟨⟨status, s'⟩, happ, rfl⟩ := Option.map_eq_some_iff.1 hstat
  have hnone : (leaderA 1 ⟨1, 1⟩ firstRunning).NoneWaitedFor envA [] splitBatch := by
    refine .inr ⟨?_, .inr (.inr ⟨nofun, .inl ⟨_, rfl⟩⟩)⟩
    rintro _ ⟨⟩
    exact .inr (.inr ⟨⟨⟨7, 7⟩, 0, 1⟩, by decide⟩)
  obtain ⟨hidx, hlast, -, hspl, hrun⟩ := (appendNewRoundsToQueue_rollback
    ⟨by decide, by decide, fun _ => rfl⟩ happ (.inr ⟨_, rfl⟩)).2 ⟨rfl, by decide, fun _ => hnone⟩
  exact ⟨s', happ, hspl, hidx, hlast, (hrun _).trans rfl⟩

/-- The first write of a client on a new leader of term 2, whose last operation is of term 1. -/
def firstWrite : List (RoundClock × ConsensusRound) :=
  [({}, { payload := .writeOp (some firstRequest) })]

/-- The queue is full. The last operation is now one of term 2 that does not exist, and the request
is running although no operation has it. -/
theorem not_appendNewRoundsToQueue_rollback :
    (leaderA 2 ⟨1, 1⟩ .init).isActiveLeader envA ∧
      ∃ s', (leaderA 2 ⟨1, 1⟩ .init).appendNewRoundsToQueue envA firstWrite .serviceUnavailable =
          some (.serviceUnavailable, s') ∧
        (leaderA 2 ⟨1, 1⟩ .init).core.lastReceivedOpId = ⟨1, 1⟩ ∧
        s'.core.lastReceivedOpId = ⟨2, 1⟩ ∧ s'.pendingOperations = [] ∧
        ((leaderA 2 ⟨1, 1⟩ .init).retryableRequests.clients ⟨7, 7⟩).running = [] ∧
        (s'.retryableRequests.clients ⟨7, 7⟩).running = [⟨1, ⟨2, 2⟩, 0, []⟩] := by
  have hres : ((leaderA 2 ⟨1, 1⟩ .init).appendNewRoundsToQueue envA firstWrite
      .serviceUnavailable).map (fun r => (r.1, r.2.core.lastReceivedOpId, r.2.pendingOperations,
        (r.2.retryableRequests.clients ⟨7, 7⟩).running)) =
      some (.serviceUnavailable, ⟨2, 1⟩, [], [⟨1, ⟨2, 2⟩, 0, []⟩]) := by decide
  obtain ⟨⟨status, s'⟩, happ, hs'⟩ := Option.map_eq_some_iff.1 hres
  obtain ⟨rfl, hlast, hpend, hrun⟩ : status = .serviceUnavailable ∧
      s'.core.lastReceivedOpId = ⟨2, 1⟩ ∧ s'.pendingOperations = [] ∧
      (s'.retryableRequests.clients ⟨7, 7⟩).running = [⟨1, ⟨2, 2⟩, 0, []⟩] := by
    simpa using hs'
  exact ⟨by decide, s', happ, rfl, hlast, hpend, rfl, hrun⟩

end Example

/-! ## The split operation -/

/-- If there is a split operation, it is in the log. -/
def SplitOpInLog (s : RoundState) : Prop :=
  s.splitOpInfo.opId ≠ OpId.min0 →
    ∃ round ∈ s.applied ++ s.pendingOperations, round.id = s.splitOpInfo.opId ∧
      ∃ request, round.payload = .splitOp request

section

variable (h : s.SplitOpInLog)

include h

/-- The log and the split operation are all that matters. -/
lemma SplitOpInLog.congr
    (hlog : s'.applied ++ s'.pendingOperations = s.applied ++ s.pendingOperations)
    (hspl : s'.splitOpInfo = s.splitOpInfo) : s'.SplitOpInLog := by
  rw [SplitOpInLog, hlog, hspl]
  exact h

/-- A round that is added is at the end of the log, also if it is a split operation. -/
lemma SplitOpInLog.add (hadd : s.addPendingOperation env clock round = some (.ok (), s')) :
    s'.SplitOpInLog := by
  have hadds := addPendingOperation_ok hadd
  intro hne
  rw [hadds.applied, hadds.pendingOperations, ← append_assoc]
  rcases hadds.splitOpInfo with hsame | ⟨-, hrnd, hpay⟩
  · rw [hsame] at hne ⊢
    obtain ⟨r, hr, hspl⟩ := h hne
    exact ⟨r, mem_append_left _ hr, hspl⟩
  · exact ⟨round, by simp, hrnd.symm, hpay⟩

/-- A round that is rejected changes nothing about the split operation. -/
lemma SplitOpInLog.add_error {e : AddPendingError}
    (hadd : s.addPendingOperation env clock round = some (.error e, s')) : s'.SplitOpInLog := by
  rcases addPendingOperation_error hadd with rfl | ⟨-, rfl, -⟩
  · exact h
  · exact h.congr rfl rfl

/-- Giving an id back. The round that is taken from the log is the one with the id. -/
lemma SplitOpInLog.cancel {id : OpId} {shouldExist : Bool}
    (hlast : shouldExist → ∀ round ∈ s.pendingOperations.getLast?, round.id = id)
    (hcan : s.cancelPendingOperation id shouldExist = some s') : s'.SplitOpInLog := by
  obtain ⟨-, -, rfl⟩ := cancelPendingOperation_spec hcan
  by_cases hid : id = s.splitOpInfo.opId
  · intro hne
    simp [hid] at hne
  intro hne
  simp only [if_neg hid] at hne ⊢
  obtain ⟨r, hr, hspl⟩ := h hne
  refine ⟨r, ?_, hspl⟩
  cases shouldExist with
  | false => exact hr
  | true =>
    rcases mem_append.1 hr with happl | hpend
    · exact mem_append_left _ happl
    -- the split operation has another id, so it is not the one that goes
    refine mem_append_right _ ?_
    obtain ⟨last, hlast'⟩ : ∃ last, s.pendingOperations.getLast? = some last := by
      cases hget : s.pendingOperations.getLast? with
      | none => simp [getLast?_eq_none_iff.1 hget] at hpend
      | some last => exact ⟨last, rfl⟩
    obtain ⟨rest, hrest⟩ := getLast?_eq_some_iff.1 hlast'
    simp only [hrest, dropLast_concat] at hpend ⊢
    rcases mem_append.1 hpend with hmem | hmem
    · exact hmem
    · rw [mem_singleton.1 hmem, hlast rfl last hlast'] at hspl
      exact absurd hspl.1 hid

/-- Giving back the ids of the last pending rounds. -/
lemma SplitOpInLog.rollbackIds {pending rest : List ConsensusRound}
    (hpend : s.pendingOperations = pending ++ rest) (hroll : s.rollbackIds rest = some s') :
    s'.SplitOpInLog ∧ s'.pendingOperations = pending := by
  induction rest generalizing pending s' with
  | nil =>
    cases hroll
    exact ⟨h, by simpa using hpend⟩
  | cons round rest ih =>
    obtain ⟨t, ht, hcan⟩ := Option.bind_eq_some_iff.1 hroll
    rw [append_cons] at hpend
    obtain ⟨hinLog, htPending⟩ := ih hpend ht
    refine ⟨hinLog.cancel ?_ hcan, ?_⟩
    · intro _ r hr
      simp only [htPending, getLast?_concat, Option.mem_def, Option.some.injEq] at hr
      rw [hr]
    · obtain ⟨-, -, rfl⟩ := cancelPendingOperation_spec hcan
      simp [htPending]

end

/-- The rounds of a batch stay at the end of the pending ones. -/
lemma batchInvariant_splitOpInLog (pending : List ConsensusRound) :
    BatchInvariant env rounds
      (fun s added => s.SplitOpInLog ∧ s.pendingOperations = pending ++ added) fun _ _ => True where
  add {s s' added clock round} _ h hok := by
    have hnew : s.newId.2.SplitOpInLog := h.1.congr rfl rfl
    refine ⟨hnew.add hok, ?_⟩
    rw [(addPendingOperation_ok hok).pendingOperations, ← append_assoc]
    exact congrArg (· ++ [_]) h.2
  cancel {s t s' added clock round e} _ h herr hcan := by
    have hnew : s.newId.2.SplitOpInLog := h.1.congr rfl rfl
    refine ⟨⟨(hnew.add_error herr).cancel (by simp) hcan, ?_⟩, trivial⟩
    obtain ⟨-, -, rfl⟩ := cancelPendingOperation_spec hcan
    rcases addPendingOperation_error herr with rfl | ⟨-, rfl, -⟩ <;> exact h.2
  rollbackIds {s s' added} h _ hroll := by
    obtain ⟨hinLog, hpend⟩ := h.1.rollbackIds h.2 hroll
    exact ⟨⟨hinLog, by rw [hpend, append_nil]⟩, trivial⟩

/-- The rounds of a leader are all appended, or all taken back. -/
lemma SplitOpInLog.appendNewRoundsToQueue {status : AppendStatus} (h : s.SplitOpInLog)
    (happ : s.appendNewRoundsToQueue env rounds queueStatus = some (status, s')) :
    s'.SplitOpInLog := by
  rcases (batchInvariant_splitOpInLog s.pendingOperations).appendNewRoundsToQueue
    ⟨h, (append_nil _).symm⟩ happ with ⟨hback, -⟩ | ⟨-, t, added, ht, rfl | ⟨id, rfl⟩⟩
  · exact hback.1
  · exact ht.1
  · exact ht.1.congr rfl rfl

/-- A follower adds rounds up to the first one that it cannot prepare. -/
lemma SplitOpInLog.enqueuePrepares {prepared : List ConsensusRound} (h : s.SplitOpInLog)
    (henq : enqueuePrepares env s rounds = some (prepared, s')) : s'.SplitOpInLog := by
  induction rounds generalizing s prepared with
  | nil =>
    cases henq
    exact h
  | cons head rest ih =>
    simp only [RoundState.enqueuePrepares] at henq
    split at henq
    · cases henq
    case h_2 e t herr =>
      cases henq
      exact h.add_error herr
    case h_3 t hok =>
      obtain ⟨⟨prepared', u⟩, hu, heq⟩ := Option.map_eq_some_iff.1 henq
      cases heq
      exact ih (h.add hok) hu

/-- None of the rounds that an abort takes from the log is the split operation. -/
def AbortKeepsSplit (s : RoundState) (newPrecedingIdx : ℕ) : Prop :=
  ∀ round ∈ s.pendingOperations.dropWhile (·.id.index ≤ newPrecedingIdx),
    round.id ≠ s.splitOpInfo.opId

instance (s : RoundState) (newPrecedingIdx : ℕ) : Decidable (s.AbortKeepsSplit newPrecedingIdx) :=
  inferInstanceAs (Decidable (∀ _ ∈ _, _))

/-- Aborted operations are after the split operation. -/
lemma SplitOpInLog.abortOpsAfter {newPrecedingIdx : ℕ} (h : s.SplitOpInLog)
    (hkeeps : s.AbortKeepsSplit newPrecedingIdx)
    (habt : s.abortOpsAfter env newPrecedingIdx = some s') : s'.SplitOpInLog := by
  obtain ⟨core, hcore, rfl⟩ := Option.map_eq_some_iff.1 habt
  obtain ⟨-, hpend, happl, hspl⟩ := foldl_notify_frame env 0 false
    (s.pendingOperations.dropWhile (·.id.index ≤ newPrecedingIdx))
    { s with
      core := core
      pendingOperations := s.pendingOperations.takeWhile (·.id.index ≤ newPrecedingIdx) }
  rw [SplitOpInLog, hpend, happl, hspl]
  intro hne
  obtain ⟨round, hrnd, hid, hpay⟩ := h hne
  refine ⟨round, ?_, hid, hpay⟩
  -- the split operation is applied, or pending and not aborted
  rcases mem_append.1 hrnd with hmem | hmem
  · exact mem_append_left _ hmem
  · rw [← takeWhile_append_dropWhile (l := s.pendingOperations)] at hmem
    rcases mem_append.1 hmem with hkept | habo
    · exact mem_append_right _ hkept
    · exact absurd hid (hkeeps round habo)

/-- `TABLET_SPLIT` is reported with the split operation, if there is one. -/
lemma addPendingOperation_tabletSplit
    (h : s.addPendingOperation env clock round = some (.error (.tabletSplit info), s')) :
    info = s.splitOpInfo ∧ s.splitOpInfo.opId ≠ OpId.min0 := by
  rw [addPendingOperation] at h
  split_ifs at h with hspl hall hlease
  · cases h
    exact ⟨rfl, hall.1⟩
  · cases h
  · -- what the round carries is no reason for `TABLET_SPLIT`
    rw [addPayload] at h
    split at h
    · split_ifs at h
      · cases h
      · cases h
      · split at h <;> cases h
      · cases h
    · dsimp only at h
      split_ifs at h <;> cases h
    · split_ifs at h <;> cases h
    · cases h
  · cases h

end RoundState

namespace RoundConsensus

open RoundState

variable {r r' : RoundConsensus} {env : RoundEnv} {e : Event}

/-- No abort takes the split operation from the log. -/
def KeepsSplit (r : RoundConsensus) : Event → Prop
  | .abortOpsAfter newPrecedingIdx => r.state.AbortKeepsSplit newPrecedingIdx
  | _ => True

instance (r : RoundConsensus) (e : Event) : Decidable (r.KeepsSplit e) := by
  cases e <;> (unfold KeepsSplit; infer_instance)

/-- A change of the config is a round of the leader. -/
lemma splitOpInLog_replicateConfigChange {clock : RoundClock} {newConfig : RaftConfigPB}
    {result : Except ChangeConfigError Unit} (h : r.state.SplitOpInLog)
    (hstep : r.replicateConfigChange env clock newConfig queueStatus = some (result, r')) :
    r'.state.SplitOpInLog := by
  obtain ⟨rfl, -⟩ | ⟨queue, status, state, -, -, -, happ, rfl, -⟩ :=
    replicateConfigChange_spec hstep
  · exact h
  have hpend : ({ r.state with pendingConfig := some newConfig } : RoundState).SplitOpInLog :=
    h.congr rfl rfl
  have hst := hpend.appendNewRoundsToQueue happ
  split_ifs
  · exact hst
  · exact hst.congr rfl rfl

/-- Every step but an abort of the split operation keeps it in the log. -/
lemma splitOpInLog_step (h : r.state.SplitOpInLog) (hkeeps : r.KeepsSplit e)
    (hstep : r.step env e = some r') : r'.state.SplitOpInLog := by
  cases e with
  | advanceTerm newTerm =>
    cases hstep
    rw [handleTermAdvance]
    split_ifs
    · exact h
    all_goals exact h.congr rfl rfl
  | becomeLeader clock queueStatus =>
    simp only [step] at hstep
    split_ifs at hstep
    -- the no-op of the new leader
    obtain ⟨queue, status, state, -, happ, rfl⟩ := becomeLeader_spec hstep
    refine SplitOpInLog.appendNewRoundsToQueue ?_ happ
    exact h.congr rfl rfl
  | stepDown =>
    cases hstep
    exact h.congr rfl rfl
  | replicate rounds queueStatus =>
    simp only [step] at hstep
    split_ifs at hstep
    obtain ⟨⟨status, state⟩, happ, rfl⟩ := Option.map_eq_some_iff.1 hstep
    exact h.appendNewRoundsToQueue happ
  | changeConfig addresses clock req queueStatus =>
    obtain ⟨⟨result, r₁⟩, hchg, rfl⟩ := Option.map_eq_some_iff.1 hstep
    rw [changeConfig] at hchg
    split at hchg
    · cases hchg
      exact h
    · exact splitOpInLog_replicateConfigChange h hchg
  | acceptLeader uuid =>
    simp only [step] at hstep
    split_ifs at hstep
    cases hstep
    exact h.congr rfl rfl
  | abortOpsAfter newPrecedingIdx =>
    simp only [step] at hstep
    split_ifs at hstep
    obtain ⟨state, habt, rfl⟩ := Option.map_eq_some_iff.1 hstep
    exact h.abortOpsAfter hkeeps habt
  | prepare rounds =>
    simp only [step] at hstep
    split_ifs at hstep
    obtain ⟨state, hprep, rfl⟩ := Option.map_eq_some_iff.1 hstep
    obtain ⟨⟨prepared, state'⟩, henq, rfl⟩ := Option.map_eq_some_iff.1 hprep
    -- the last received id is not about the split operation
    have hst' := h.enqueuePrepares henq
    dsimp only [withState]
    split
    · exact hst'
    · exact hst'.congr rfl rfl
  | advanceCommittedOpId ctx committedOpId couldStop =>
    obtain ⟨⟨ok, state⟩, hadv, rfl⟩ := Option.map_eq_some_iff.1 hstep
    obtain ⟨hlog, hspl, -⟩ := advanceCommittedOpId_spec hadv
    exact h.congr hlog hspl

/-- In a run in which no abort takes the split operation from the log, a split operation is one that
is in the log, and an operation is refused with `TABLET_SPLIT` only then. -/
theorem splitOpInLog_of_run {config : RaftConfigPB} {es : List Event}
    (h : Run (Restrict KeepsSplit (Step env)) (init config) es r) :
    r.state.SplitOpInLog ∧ ∀ clock round info s',
        r.state.addPendingOperation env clock round = some (.error (.tabletSplit info), s') →
          ∃ split ∈ r.state.applied ++ r.state.pendingOperations, split.id = info.opId ∧
            ∃ request, split.payload = .splitOp request := by
  have hinLog : r.state.SplitOpInLog := by
    refine h.invariant (I := fun r => r.state.SplitOpInLog) ?_ ?_
    · intro r e r' hr hstep
      exact splitOpInLog_step hr hstep.1 hstep.2
    · intro hne
      exact absurd rfl hne
  refine ⟨hinLog, fun clock round info s' href => ?_⟩
  obtain ⟨rfl, hne⟩ := addPendingOperation_tabletSplit href
  exact hinLog hne

section Example

/-- The tablet is split by the first operation of the leader `b`. -/
def splitByB : List Event :=
  [.advanceTerm 1, .acceptLeader "b",
    .prepare [({}, { id := ⟨1, 1⟩, payload := .splitOp ⟨"t", "t1", "t2"⟩ })]]

theorem splitOpInLog_of_run_splitByB :
    ∃ r, Run (Restrict KeepsSplit (Step envA)) (init configA) splitByB r ∧
      r.state.splitOpInfo.opId = ⟨1, 1⟩ ∧ r.state.SplitOpInLog := by
  have hrun : ((Run.exec (restrict KeepsSplit (RoundConsensus.step envA)) (init configA)
      splitByB).map fun r => r.state.splitOpInfo.opId) = some ⟨1, 1⟩ := by decide
  obtain ⟨r, hexec, hspl⟩ := Option.map_eq_some_iff.1 hrun
  exact ⟨r, Run.of_exec_restrict hexec, hspl, (splitOpInLog_of_run (Run.of_exec_restrict hexec)).1⟩

/-- The leader of term 2 does not have the split operation, and aborts it. Nothing is in the log,
but the write that it sends is refused. -/
theorem not_splitOpInLog_of_run :
    ∃ r, Run (Step envA) (init configA) (splitByB ++ [.advanceTerm 2, .acceptLeader "c",
      .abortOpsAfter 0]) r ∧
      r.state.applied ++ r.state.pendingOperations = [] ∧ r.state.splitOpInfo.opId = ⟨1, 1⟩ ∧
      ((r.state.addPendingOperation envA {} { id := ⟨2, 1⟩, payload := .writeOp none }).map
        Prod.fst) = some (.error (.tabletSplit ⟨⟨1, 1⟩, ["t1", "t2"]⟩)) := by
  have hrun : ((Run.exec (RoundConsensus.step envA) (init configA)
      (splitByB ++ [.advanceTerm 2, .acceptLeader "c", .abortOpsAfter 0])).map fun r =>
        (r.state.applied ++ r.state.pendingOperations, r.state.splitOpInfo.opId,
          (r.state.addPendingOperation envA {} { id := ⟨2, 1⟩, payload := .writeOp none }).map
            Prod.fst)) =
      some ([], ⟨1, 1⟩, some (.error (.tabletSplit ⟨⟨1, 1⟩, ["t1", "t2"]⟩))) := by decide
  obtain ⟨r, hexec, hr⟩ := Option.map_eq_some_iff.1 hrun
  simp only [Prod.mk.injEq] at hr
  exact ⟨r, Run.of_exec hexec, hr.1, hr.2.1, hr.2.2⟩

end Example

end RoundConsensus
