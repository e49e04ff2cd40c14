import ZNbase.Consensus.ReplicaLog
import ZNbase.Lib.Raft.Steps

/-!
# The log of a follower

What `UpdateReplica` does to the log of a replica, if the request is a slice of the log `leader` of
its caller, and if the logs agree wherever they have operations of the same term at the same place.

- A request that is not accepted may cut the log, at an operation that differs from the leader's.
- A request that is accepted makes the log a part of the leader's, unless it has nothing new.
- What is committed by a request is part of the leader's log, and not past the committed id of the
  request.
-/

open List

namespace OpLog

variable {leader l ops skipped : List ReplicateMsg} {preceding : OpId} {m : ReplicateMsg}

/-- A slice follows what comes before it in the log. -/
lemma IsSlice.take_append (h : IsSlice leader preceding ops) :
    leader.take preceding.index ++ ops <+: leader := by
  obtain ⟨-, -, r, hr⟩ := h
  refine ⟨r, ?_⟩
  rw [append_assoc, hr, take_append_drop]

/-- A slice has the indices after the preceding one. -/
lemma IsSlice.indexedFrom (h : IsSlice leader preceding ops) (hlead : Indexed leader) :
    IndexedFrom preceding.index ops := by
  have hidx := indexed_append_iff.1 (hlead.of_isPrefix h.take_append)
  have hlen : (leader.take preceding.index).length = preceding.index := by
    rw [length_take, min_eq_left h.1]
  exact hlen ▸ hidx.2

/-- A slice of a log is one of a longer log. -/
lemma IsSlice.mono (h : IsSlice leader preceding ops) (hl : leader <+: l) :
    IsSlice l preceding ops := by
  obtain ⟨r, rfl⟩ := hl
  obtain ⟨hle, hlast, hops⟩ := h
  refine ⟨hle.trans (by simp), ?_, ?_⟩
  · rw [take_append_of_le_length hle]
    exact hlast
  · rw [drop_append_of_le_length hle]
    exact hops.trans (prefix_append _ _)

/-- The first operation of a slice is where the leader has it. -/
lemma IsSlice.getElem?_first (h : IsSlice leader preceding (m :: ops)) :
    leader[preceding.index]? = some m := by
  obtain ⟨-, -, r, hr⟩ := h
  have h0 := congrArg (fun l : List ReplicateMsg => l[0]?) hr
  simp only [getElem?_drop] at h0
  exact h0.symm

/-- The rest of a slice after its first operation. -/
lemma IsSlice.tail (h : IsSlice leader preceding (m :: ops)) (hlead : Indexed leader) :
    IsSlice leader m.id ops := by
  have hm : m.id.index = preceding.index + 1 :=
    (indexedFrom_cons_iff.1 (h.indexedFrom hlead)).1
  have hget := h.getElem?_first
  obtain ⟨hle, -, r, hr⟩ := h
  refine ⟨?_, ?_, ?_⟩
  · rw [hm]
    exact (List.getElem?_eq_some_iff.1 hget).1
  · rw [hm]
    exact lastId_take_succ hget
  · rw [hm, ← drop_drop, ← hr]
    exact ⟨r, by simp⟩

/-- The operation before a slice is where the leader has it. -/
lemma IsSlice.getElem?_preceding (h : IsSlice leader preceding ops) (hpos : 0 < preceding.index) :
    ∃ m, leader[preceding.index - 1]? = some m ∧ m.id = preceding := by
  obtain ⟨hle, hlast, -⟩ := h
  obtain ⟨m, hm⟩ : ∃ m, leader[preceding.index - 1]? = some m :=
    ⟨_, getElem?_eq_getElem (by omega)⟩
  have hid := lastId_take_succ hm
  rw [Nat.sub_add_cancel hpos, hlast] at hid
  exact ⟨m, hm, hid.symm⟩

end OpLog

open OpLog

/-- A replica agrees with the leader: on what it has applied, and up to operations of one term. -/
structure ReplicaState.Agrees {ι : Type*} (leader : List ReplicateMsg) (s : ReplicaState ι) :
    Prop where
  applied : s.applied <+: leader
  take_eq : ∀ i a b, s.log[i]? = some a → leader[i]? = some b → a.id.term = b.id.term →
    s.log.take (i + 1) = leader.take (i + 1)

/-- The step of a replica from `a` to `b` that follows the log of a leader, who has committed the
operations up to the index. -/
structure ReplicaState.Follows {ι : Type*} (leader : List ReplicateMsg) (committed : ℕ)
    (a b : ReplicaState ι) : Prop where
  sound : b.Sound
  conforms : Raft.Conforms leader a.log b.log
  source : b.log <+: a.log ∨ b.log <+: leader
  applied : a.applied <+: b.applied
  committed : b.applied = a.applied ∨ b.applied <+: leader ∧ b.applied.length ≤ committed

namespace Raft

variable {E : Type*} {leader old l l' : List E}

lemma conforms_refl : Conforms leader l l :=
  ⟨l.length, by rw [take_length], .inl le_rfl⟩

/-- A longer log conforms as well. -/
lemma Conforms.mono (h : Conforms leader old l) (hl : l <+: l') : Conforms leader old l' := by
  obtain ⟨p, hkeep, hp⟩ := h
  exact ⟨p, hkeep.trans hl, hp⟩

/-- A log is cut where it differs from the leader's. -/
lemma conforms_take {p : ℕ} {a b : E} (ha : old[p]? = some a) (hb : leader[p]? = some b)
    (hab : a ≠ b) : Conforms leader old (old.take p) :=
  ⟨p, prefix_rfl, .inr ⟨a, b, ha, hb, hab⟩⟩

end Raft

namespace RaftConsensus

open ReplicaState

variable {ι : Type} {r r' : RaftConsensus ι} {self caller : ι}
  {cfg : RaftConfig ι} {request : ConsensusRequest ι} {leader : List ReplicateMsg}
  {s s' : ReplicaState ι} {deduped : LeaderRequest} {check : CheckResult} {tie committed : ℕ}

/-! ## Deduplication -/

variable {preceding : OpId} {ops : List ReplicateMsg} {k index : ℕ}

/-- Operations past what the replica has are all new. -/
lemma dedupLoop_of_new (hops : IndexedFrom index ops) (hk : k ≤ index)
    (hcom : s.lastCommittedOpId.index ≤ index) :
    dedupLoop s k preceding ops = some ⟨preceding, ops⟩ := by
  induction ops generalizing index with
  | nil => rfl
  | cons m ops ih =>
    obtain ⟨hm, hops⟩ := indexedFrom_cons_iff.1 hops
    rw [dedupLoop, if_neg (by omega), if_neg (by omega)]
    simp only [ih hops (by omega) (by omega)]
    rfl

/-- What is left of a slice is a slice, and ends where the slice ends. -/
lemma dedupLoop_spec (hlead : Indexed leader) (hslice : IsSlice leader preceding ops)
    (h : dedupLoop s k preceding ops = some deduped) :
    IsSlice leader deduped.precedingOpId deduped.messages ∧
      deduped.precedingOpId.index + deduped.messages.length = preceding.index + ops.length := by
  induction ops generalizing k preceding deduped with
  | nil =>
    cases h
    exact ⟨hslice, rfl⟩
  | cons m ops ih =>
    obtain ⟨hm, hops⟩ := indexedFrom_cons_iff.1 (hslice.indexedFrom hlead)
    have hlen : preceding.index + (m :: ops).length = m.id.index + ops.length := by
      rw [hm, length_cons]
      omega
    -- once an operation is new, the rest is
    have hnew : ∀ k', k' ≤ m.id.index → ¬m.id.index ≤ s.lastCommittedOpId.index →
        (dedupLoop s k' preceding ops).map (fun d => { d with messages := m :: d.messages }) =
          some deduped → deduped = ⟨preceding, m :: ops⟩ := by
      intro k' hk' hcom hd
      rw [dedupLoop_of_new hops (by omega) (by omega)] at hd
      exact (Option.some.inj hd).symm
    simp only [dedupLoop] at h
    split_ifs at h with hcom hk
    · rw [hlen]
      exact ih (hslice.tail hlead) h
    · split at h
      · cases h
      · split_ifs at h with hsame
        · rw [hlen]
          exact ih (hslice.tail hlead) h
        · rw [hnew _ le_rfl hcom h]
          exact ⟨hslice, rfl⟩
    · rw [hnew _ (by omega) hcom h]
      exact ⟨hslice, rfl⟩

/-- Deduplication takes operations out. -/
lemma dedupLoop_messages_sublist
    (h : dedupLoop s k preceding ops = some deduped) : deduped.messages.Sublist ops := by
  induction ops generalizing k preceding deduped with
  | nil =>
    cases h
    exact List.Sublist.refl _
  | cons m ops ih =>
    have hnew : ∀ k', (dedupLoop s k' preceding ops).map
        (fun d => { d with messages := m :: d.messages }) = some deduped →
        deduped.messages.Sublist (m :: ops) := by
      intro k' hd
      obtain ⟨d, hloop, rfl⟩ := Option.map_eq_some_iff.1 hd
      exact (ih hloop).cons_cons m
    simp only [dedupLoop] at h
    split_ifs at h
    · exact (ih h).cons m
    · split at h
      · cases h
      · split_ifs at h
        · exact (ih h).cons m
        · exact hnew _ h
    · exact hnew _ h

/-! ## The check of a request -/

/-- The logs agree up to a preceding operation that the replica finds. -/
lemma take_preceding_eq (hsnd : s.Sound) (hagr : s.Agrees leader)
    (hslice : IsSlice leader deduped.precedingOpId deduped.messages)
    (h : s.isOpCommittedOrPending deduped.precedingOpId = some .committedOrPending) :
    s.log.take deduped.precedingOpId.index = leader.take deduped.precedingOpId.index := by
  rcases (hsnd.isOpCommittedOrPending_spec h).1 rfl with hle | ⟨hlt, m, hm, hid⟩
  · obtain ⟨r, hr⟩ := hagr.applied
    rw [ReplicaState.log, take_append_of_le_length hle, ← hr, take_append_of_le_length hle]
  · have hpos : 0 < deduped.precedingOpId.index := by omega
    obtain ⟨m', hm', hid'⟩ := hslice.getElem?_preceding hpos
    have htake := hagr.take_eq _ m m' hm hm' (by rw [hid, hid'])
    rw [Nat.sub_add_cancel hpos] at htake
    exact htake

variable [DecidableEq ι]

/-- The log of a replica that has accepted a request, before the new operations are added. -/
structure Accepted (leader : List ReplicateMsg) (committed : ℕ) (deduped : LeaderRequest)
    (a b : ReplicaState ι) : Prop where
  sound : b.Sound
  applied : a.applied <+: b.applied
  committed : b.applied = a.applied ∨ b.applied <+: leader ∧ b.applied.length ≤ committed
  take_eq : b.log.take deduped.precedingOpId.index = leader.take deduped.precedingOpId.index
  log : deduped.messages = [] ∧ b.log = a.log ∨
    b.log = leader.take deduped.precedingOpId.index ∧ Raft.Conforms leader a.log b.log

/-- A request that is not accepted may cut the log where it differs from the leader's. -/
lemma Enforced.conforms (hsnd : r.state.Sound)
    (hslice : IsSlice leader deduped.precedingOpId deduped.messages)
    (h : Enforced r self cfg caller deduped tie r' check) (hchk : ∀ d, check ≠ .accepted d) :
    r'.state.Sound ∧ r'.state.applied = r.state.applied ∧ r'.state.log <+: r.state.log ∧
      Raft.Conforms leader r.state.log r'.state.log := by
  cases h with
  | failed | missing => exact ⟨hsnd, rfl, prefix_rfl, Raft.conforms_refl⟩
  | mismatch hmis habt =>
    obtain ⟨hpos, m, hm, hterm⟩ := (hsnd.isOpCommittedOrPending_spec hmis).2.2 rfl
    obtain ⟨-, -, hs, happl, hlog⟩ := hsnd.abortOpsAfter_spec habt
    obtain ⟨m', hm', hid'⟩ := hslice.getElem?_preceding (by omega)
    refine ⟨hs, happl, hlog ▸ take_prefix _ _, ?_⟩
    rw [hlog]
    refine Raft.conforms_take hm hm' ?_
    rintro rfl
    exact hterm (by rw [hid'])
  | accepted | aborted => exact absurd rfl (hchk _)

/-- An update that is accepted leaves a log that has the preceding operation. -/
lemma Enforced.accepted_spec {d : LeaderRequest} (committed : ℕ) (hsnd : r.state.Sound)
    (hagr : r.state.Agrees leader) (hlead : Indexed leader)
    (hslice : IsSlice leader deduped.precedingOpId deduped.messages)
    (h : Enforced r self cfg caller deduped tie r' (.accepted d)) :
    d = deduped ∧ Accepted leader committed deduped r.state r'.state := by
  have hidx : ∀ first ∈ deduped.messages.head?,
      first.id.index = deduped.precedingOpId.index + 1 := by
    intro first hfirst
    obtain ⟨rest, hmsgs⟩ := head?_eq_some_iff.1 hfirst
    exact (indexedFrom_cons_iff.1 (hmsgs ▸ hslice.indexedFrom hlead)).1
  cases h with
  | accepted hprec hfirst =>
    have htake := take_preceding_eq hsnd hagr hslice hprec
    refine ⟨rfl, hsnd.of_eq rfl rfl rfl rfl rfl (.inr rfl), prefix_rfl, .inl rfl, htake, ?_⟩
    cases hhead : deduped.messages.head? with
    | none => exact .inl ⟨head?_eq_none_iff.1 hhead, rfl⟩
    | some first =>
      -- the first operation follows on the last one received
      have hshort := (hsnd.isOpCommittedOrPending_spec (hfirst first hhead)).2.1 rfl
      have hfirstIndex := hidx first hhead
      refine .inr ⟨?_, Raft.conforms_refl⟩
      change r.state.log = _
      rw [← htake, take_of_length_le (by omega)]
  | @aborted first state log callbacks queue hprec hfirst hmis habt =>
    -- the operations from the first one on are aborted
    have htake := take_preceding_eq hsnd hagr hslice hprec
    obtain ⟨-, m, hm, hterm⟩ := (hsnd.isOpCommittedOrPending_spec hmis).2.2 rfl
    rw [hidx first hfirst] at hm
    obtain ⟨-, -, hs, happl, hcut⟩ := hsnd.abortOpsAfter_spec habt
    refine ⟨rfl, hs.of_eq rfl rfl rfl rfl rfl (.inr rfl), happl ▸ prefix_rfl, .inl happl,
      ?_, .inr ⟨hcut.trans htake, ?_⟩⟩
    · change state.log.take _ = _
      rw [hcut, take_take, min_self]
      exact htake
    · change Raft.Conforms leader r.state.log state.log
      rw [hcut]
      obtain ⟨rest, hmsgs⟩ := head?_eq_some_iff.1 hfirst
      refine Raft.conforms_take hm (hmsgs ▸ hslice).getElem?_first ?_
      rintro rfl
      exact hterm rfl

/-! ## An accepted request -/

section

omit [DecidableEq ι]

/-- What is applied of a log that agrees with the leader's. -/
lemma applied_prefix_of_take_eq (htake : s.log.take k = leader.take k)
    (hle : s.applied.length ≤ k) : s.applied <+: leader := by
  have hpre : s.applied <+: s.log.take k :=
    prefix_take_iff.2 ⟨applied_prefix_log, hle⟩
  rw [htake] at hpre
  exact hpre.trans ( take_prefix _ _)

/-- Committing on a follower stays within what it shares with the leader. -/
lemma committed_of_advances {applied : List ReplicateMsg}
    (hold : s.applied = applied ∨ s.applied <+: leader ∧ s.applied.length ≤ committed)
    (h : Advances s s' index) (htake : s.log.take k = leader.take k) (hidx : index ≤ k)
    (hcom : index ≤ committed) :
    s'.applied = applied ∨ s'.applied <+: leader ∧ s'.applied.length ≤ committed := by
  rcases h.le with heq | hle
  · rw [heq]
    exact hold
  · rw [← h.log] at htake
    exact .inr ⟨applied_prefix_of_take_eq htake (hle.trans hidx), hle.trans hcom⟩

/-- The early commit stops before the new operations. -/
lemma earlyApplyUpTo_index_le (s : ReplicaState ι) (request : ConsensusRequest ι)
    (deduped : LeaderRequest) :
    (earlyApplyUpTo s request deduped).index ≤ deduped.precedingOpId.index ∧
      (earlyApplyUpTo s request deduped).index ≤ request.committedOpId.index := by
  simp only [earlyApplyUpTo]
  split_ifs <;> omega

end

variable {a b c : ReplicaState ι} {ctx : UpdateContext} {result : Option UpdateReplicaResult}
  {prepared : List ReplicateMsg}

section

omit [DecidableEq ι]

/-- A replica follows the leader while it commits what it has of the leader's log. -/
lemma follows_of_advances (h : Follows leader committed a b)
    (hadv : Advances b c index) (htake : b.log.take k = leader.take k) (hk : index ≤ k)
    (hcom : index ≤ committed) : Follows leader committed a c where
  sound := hadv.sound h.sound
  conforms := hadv.log ▸ h.conforms
  source := by
    rw [hadv.log]
    exact h.source
  applied := h.applied.trans hadv.applied
  committed := committed_of_advances h.committed hadv htake hk hcom

section

variable (h : Accepted leader committed deduped a b)

include h

/-- It may commit before it has the new operations. -/
lemma Accepted.advance (hadv : Advances b c index) (hk : index ≤ deduped.precedingOpId.index)
    (hcom : index ≤ committed) :
    Accepted leader committed deduped a c where
  sound := hadv.sound h.sound
  applied := h.applied.trans hadv.applied
  committed := committed_of_advances h.committed hadv h.take_eq hk hcom
  take_eq := hadv.log ▸ h.take_eq
  log := by
    rw [hadv.log]
    exact h.log

/-- A replica that has accepted an update follows the leader. -/
lemma Accepted.follows : Follows leader committed a b := by
  rcases h.log with ⟨-, hlog⟩ | ⟨hlog, hconf⟩
  · refine ⟨h.sound, ?_, .inl (by rw [hlog]), h.applied, h.committed⟩
    rw [hlog]
    exact Raft.conforms_refl
  · exact ⟨h.sound, hconf, .inr (hlog ▸ take_prefix _ _), h.applied, h.committed⟩

/-- The state once the new operations are pending, with their ids. -/
lemma Accepted.append (hlead : Indexed leader)
    (hslice : IsSlice leader deduped.precedingOpId deduped.messages)
    (hprep : prepared <+: deduped.messages) {last : ReplicateMsg}
    (hlast : prepared.getLast? = some last)
    (hc : c = ({ b with pendingOperations := b.pendingOperations ++ prepared } :
      ReplicaState ι).updateLastReceivedOpId last.id) :
    Follows leader committed a c ∧ c.log.take last.id.index = leader.take last.id.index ∧
      last.id.index = deduped.precedingOpId.index + prepared.length := by
  have hne : deduped.messages ≠ [] := by
    intro hnil
    rw [hnil, prefix_nil] at hprep
    simp [hprep] at hlast
  obtain ⟨hlog, hconf⟩ := h.log.resolve_left fun hnil => hne hnil.1
  -- the log is the leader's up to the last prepared operation
  have hlogc : c.log = leader.take deduped.precedingOpId.index ++ prepared := by
    rw [hc, ← hlog]
    exact (append_assoc _ _ _).symm
  have hpre : c.log <+: leader := by
    rw [hlogc]
    exact ((prefix_append_right_inj _).2 hprep).trans hslice.take_append
  have hind := hlead.of_isPrefix hpre
  -- the last received id is that of the last prepared operation
  have hsnd : c.Sound := by
    rw [hlogc] at hind
    subst hc
    exact sound_of_log hlogc hind (lastId_append hlast).symm h.sound.lastCommitted rfl rfl
  have hidx : last.id.index = c.log.length := by
    rw [← hsnd.lastReceived_index, hc]
    rfl
  have happl : c.applied = b.applied := by
    rw [hc]
    rfl
  refine ⟨⟨hsnd, ?_, .inr hpre, happl ▸ h.applied, ?_⟩, ?_, ?_⟩
  · refine hconf.mono ?_
    rw [hlogc, hlog]
    exact prefix_append _ _
  · rw [happl]
    exact h.committed
  · obtain ⟨rest, hrest⟩ := hpre
    rw [hidx, take_length, ← hrest, take_left]
  · rw [hidx, hlogc, length_append, length_take, min_eq_left hslice.1]

end

end

/-- What is known of the result of an update, if there is one. -/
def Reports (b : ReplicaState ι) (result : Option UpdateReplicaResult) : Prop :=
  ∀ res, result = some res → res.response.status.error = none →
    res.response.status.lastReceived = b.lastReceivedOpId ∧
      res.response.status.lastReceivedCurrentLeader = b.lastReceivedOpIdCurrentLeader

/-- After an update that ends well, the replica has the operations of the leader up to the index. -/
def Matches (leader : List ReplicateMsg) (index : ℕ) (b : ReplicaState ι)
    (result : Option UpdateReplicaResult) : Prop :=
  ∀ res, result = some res → res.response.status.error = none →
    b.log.take index = leader.take index

/-- The lower one of two ids, by index. -/
lemma applyUpTo_index_le (last committed : OpId) :
    (if last.index < committed.index then last else committed).index ≤ last.index ∧
      (if last.index < committed.index then last else committed).index ≤ committed.index := by
  split_ifs <;> omega

omit [DecidableEq ι] in
/-- The final commit of an update. -/
lemma markOperationsAsCommitted_spec {ctx : ApplyContext} {ok : Bool}
    (hacc : Accepted leader committed deduped a b) (hlead : Indexed leader)
    (hslice : IsSlice leader deduped.precedingOpId deduped.messages)
    (hprep : prepared <+: deduped.messages)
    (hcom : min (deduped.precedingOpId.index + prepared.length) request.committedOpId.index ≤
      committed)
    (h : markOperationsAsCommitted
      { b with pendingOperations := b.pendingOperations ++ prepared } request
      { deduped with messages := prepared } ctx = some (ok, c)) :
    Follows leader committed a c ∧ c.log.take (deduped.precedingOpId.index + prepared.length) =
        leader.take (deduped.precedingOpId.index + prepared.length) := by
  simp only [markOperationsAsCommitted] at h
  split at h
  · -- something was prepared, and is received now
    rename_i last hlast
    obtain ⟨hfol, htake, hidx⟩ := hacc.append hlead hslice hprep hlast rfl
    have hadvances := advances_advanceCommittedOpId hfol.sound h
    rw [hlast] at hadvances
    refine ⟨follows_of_advances hfol hadvances htake (applyUpTo_index_le _ _).1 ?_, ?_⟩
    · exact (le_min (hidx ▸ (applyUpTo_index_le _ _).1) (applyUpTo_index_le _ _).2).trans
        hcom
    · rw [hadvances.log, ← hidx]
      exact htake
  · rename_i hnone
    -- nothing was prepared: the commit stops at the preceding operation
    obtain rfl : prepared = [] := getLast?_eq_none_iff.1 hnone
    have hb : ({ b with pendingOperations := b.pendingOperations ++ [] } : ReplicaState ι) = b := by
      rw [append_nil]
    rw [hb] at h
    split at h
    · cases h
      exact ⟨hacc.follows, hacc.take_eq⟩
    · have hadvances := advances_advanceCommittedOpId hacc.sound h
      have hadv := hacc.advance hadvances (applyUpTo_index_le _ _).1
        ((le_min (applyUpTo_index_le _ _).1 (applyUpTo_index_le _ _).2).trans hcom)
      exact ⟨hadv.follows, hadv.take_eq⟩

omit [DecidableEq ι] in
/-- The part of an update after its checks. -/
lemma Applied.spec {prevCommitted : OpId}
    (hacc : Accepted leader committed deduped a r.state) (hlead : Indexed leader)
    (hslice : IsSlice leader deduped.precedingOpId deduped.messages)
    (hcom : min (deduped.precedingOpId.index + deduped.messages.length)
      request.committedOpId.index ≤ committed)
    (h : Applied r cfg request prevCommitted deduped ctx r' result) :
    Follows leader committed a r'.state ∧ Reports r'.state result ∧
      (deduped.messages.length ≤ ctx.numPrepared →
        Matches leader (deduped.precedingOpId.index + deduped.messages.length) r'.state
          result) := by
  -- the early commit stops at the preceding operation, which is the leader's
  have hearly {ok s} (h : r.earlyCommit cfg request deduped ctx = some (ok, s)) :
      Accepted leader committed deduped a s := by
    have hack :
        Accepted leader committed deduped a (r.acknowledgeLeader cfg request ctx.now).state := by
      simp only [acknowledgeLeader]
      split
      · exact ⟨hacc.sound.of_eq rfl rfl rfl rfl rfl (.inr rfl), hacc.applied, hacc.committed,
          hacc.take_eq, hacc.log⟩
      · exact hacc
    obtain ⟨hprec, hreq⟩ :=
      earlyApplyUpTo_index_le (r.acknowledgeLeader cfg request ctx.now).state request deduped
    exact hack.advance (advances_advanceCommittedOpId hack.sound h) hprec
      ((le_min (hprec.trans (Nat.le_add_right _ _)) hreq).trans hcom)
  cases h with
  | stopped hstop => exact ⟨(hearly hstop).follows, by simp [Reports], by simp [Matches]⟩
  | unprepared hcmt hresp =>
    exact ⟨(hearly hcmt).follows, by simp [Reports, hresp], by simp [Matches, hresp]⟩
  | prepared hcmt hwr hmark hresult =>
    rw [state_enqueueWrites hwr] at hmark
    have hlen := ( take_prefix ctx.numPrepared deduped.messages).length_le
    -- the final commit stops at what was prepared
    obtain ⟨hfol, htake⟩ := markOperationsAsCommitted_spec (hearly hcmt) hlead hslice
      ( take_prefix _ _) ((min_le_min_right _ (by omega)).trans hcom) hmark
    refine ⟨hfol, ?_, ?_⟩
    · intro res hres _
      rw [hresult res hres]
      exact ⟨rfl, rfl⟩
    · intro hall res _ _
      rw [take_of_length_le hall] at htake
      exact htake

/-- What an update does to the log of a replica: nothing, or it follows the leader. It commits
nothing past the operations of the request, and it ends with the operations of the request in the
log if all of them could be prepared. -/
lemma updateReplica_follows (hsnd : r.state.Sound) (hlead : Indexed leader)
    (hagr : r.state.currentTerm ≤ request.callerTerm → r.state.Agrees leader)
    (hslice : IsSlice leader request.precedingId request.ops)
    (h : r.updateReplica self cfg request ctx = some (r', result)) :
    r' = r.updateClock request.propagatedHybridTime ∧
      (∀ res, result = some res → res.response.status.error ≠ none) ∨
      r.state.currentTerm ≤ request.callerTerm ∧ r'.state.currentTerm = request.callerTerm ∧
        Follows leader (min (request.precedingId.index + request.ops.length)
          request.committedOpId.index) r.state r'.state ∧
        Reports r'.state result ∧
        (request.ops.length ≤ ctx.numPrepared →
          Matches leader (request.precedingId.index + request.ops.length) r'.state result) := by
  obtain ⟨r₁, check, hchk, hrest⟩ := updateReplica_cases h
  obtain ⟨rfl, hnot⟩ | ⟨deduped, hdedup, -, hterm, henf⟩ := checkLeaderRequest_cases hchk
  · obtain ⟨rfl, -, herr⟩ | ⟨d, hd, -⟩ := hrest
    · exact .inl ⟨rfl, herr⟩
    · exact absurd hd (hnot d)
  right
  obtain ⟨hslice', hlast⟩ := dedupLoop_spec hlead hslice hdedup
  -- the replica is now in the term of the caller
  set r₂ := (r.updateClock request.propagatedHybridTime).handleTermAdvance self
    request.callerTerm with hr₂
  have hsame : r₂.state.Sound ∧ r₂.state.applied = r.state.applied ∧
      r₂.state.log = r.state.log ∧ r₂.state.currentTerm = request.callerTerm := by
    rcases hterm.lt_or_eq with hlt | heq
    · rw [handleTermAdvance_state_of_lt hlt]
      exact ⟨hsnd.setCurrentTerm, rfl, rfl, rfl⟩
    · rw [hr₂, handleTermAdvance_of_le heq.ge]
      exact ⟨hsnd, rfl, rfl, heq⟩
  obtain ⟨hsnd₂, happl₂, hlog₂, hterm₂⟩ := hsame
  have hagr₂ : r₂.state.Agrees leader := by
    obtain ⟨happl, htake⟩ := hagr hterm
    exact ⟨happl₂ ▸ happl, hlog₂ ▸ htake⟩
  have hterm₁ : r₁.state.currentTerm = request.callerTerm := by
    rw [← hterm₂]
    exact henf.metadata.elim (congrArg Prod.fst) (congrArg Prod.fst)
  obtain ⟨rfl, hchk, herr⟩ | ⟨d, rfl, happl⟩ := hrest
  · obtain ⟨hs, happl, hlog, hconf⟩ := henf.conforms hsnd₂ hslice' hchk
    refine ⟨hterm, hterm₁, ⟨hs, hlog₂ ▸ hconf, .inl (hlog₂ ▸ hlog), ?_,
      .inl (happl.trans happl₂)⟩, fun res hres hok => absurd hok (herr res hres),
      fun _ res hres hok => absurd hok (herr res hres)⟩
    rw [happl, happl₂]
  · obtain ⟨rfl, hacc⟩ := henf.accepted_spec
      (min (request.precedingId.index + request.ops.length) request.committedOpId.index) hsnd₂
      hagr₂ hlead hslice'
    have hacc' : Accepted leader _ d r.state r₁.state :=
      ⟨hacc.sound, happl₂ ▸ hacc.applied, happl₂ ▸ hacc.committed, hacc.take_eq, hlog₂ ▸ hacc.log⟩
    obtain ⟨hfol, hrep, hmatches⟩ := happl.spec hacc' hlead hslice' (by rw [hlast])
    have hterm' := congrArg Prod.fst happl.metadata
    refine ⟨hterm, hterm'.trans hterm₁, hfol, hrep, ?_⟩
    intro hall
    rw [← hlast]
    exact hmatches ((dedupLoop_messages_sublist hdedup).length_le.trans hall)

omit [DecidableEq ι] in
lemma follows_mono {committed' : ℕ} (h : Follows leader committed a b)
    (hle : committed ≤ committed') : Follows leader committed' a b :=
  ⟨h.sound, h.conforms, h.source, h.applied, h.committed.imp_right fun hc => ⟨hc.1, hc.2.trans hle⟩⟩

end RaftConsensus
