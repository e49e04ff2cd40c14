import ZNbase.Consensus.FollowerLog

/-!
# How the commit index advances

A replica advances its commit index in three places: as a follower that handles an update of its
leader, as a replica that is asked to start an election and told what has to be committed before,
and as a leader whose queue reports what a majority has.

- A follower ends an update with the operations of its leader, and commits nothing past them
  (`RaftConsensus.updateReplica_matches_leader`).
- `AdvanceCommittedOpIdUnlocked` compares indices only. That an operation id named by another node
  is the id of the replica's own operation follows for an update from the check of the preceding
  operation. The request to start an election makes no such check.
- A leader commits across terms only by an operation of its own term. The loop that applies the
  operations before it stops when the log answers with an id of a higher term and a lower index.
-/

open List OpLog

/-! ## Two logs -/

namespace OpLog

/-- The log matching property: logs that have operations of one term at one place are the same up to
that place. -/
def LogMatching (l l' : List ReplicateMsg) : Prop :=
  ∀ i a b, l[i]? = some a → l'[i]? = some b → a.id.term = b.id.term →
    l.take (i + 1) = l'.take (i + 1)

instance (l l' : List ReplicateMsg) : Decidable (LogMatching l l') :=
  decidable_of_iff (∀ i < l.length, ∀ a ∈ l[i]?, ∀ b ∈ l'[i]?, a.id.term = b.id.term →
      l.take (i + 1) = l'.take (i + 1)) <| by
    constructor
    · intro h i a b ha hb
      exact h i (List.getElem?_eq_some_iff.1 ha).1 a ha b hb
    · intro h i _ a ha b hb
      exact h i a b ha hb

instance (k : ℕ) (l : List ReplicateMsg) : Decidable (IndexedFrom k l) :=
  decidable_of_iff (∀ i < l.length, ∀ m ∈ l[i]?, m.id.index = k + i + 1) <| by
    constructor
    · intro h i m hm
      exact h i (List.getElem?_eq_some_iff.1 hm).1 m hm
    · intro h i _ m hm
      exact h i m hm

instance (l : List ReplicateMsg) : Decidable (Indexed l) := by
  unfold Indexed
  infer_instance

variable {l : List ReplicateMsg}

/-- The indices of a log count up from 1. -/
lemma Indexed.map_index (h : Indexed l) : l.map (·.id.index) = List.range' 1 l.length := by
  refine ext_getElem (by simp) ?_
  intro i hi _
  rw [length_map] at hi
  rw [getElem_map, getElem_range', h.index_eq (getElem?_eq_getElem hi)]
  omega

/-- In a log with non-decreasing terms, an operation has at least the term of an earlier one. -/
lemma term_le_of_index_lt {a b : ReplicateMsg} (hl : Indexed l)
    (hterms : (l.map (·.id.term)).Pairwise (· ≤ ·)) (ha : a ∈ l) (hb : b ∈ l)
    (h : a.id.index < b.id.index) : a.id.term ≤ b.id.term := by
  obtain ⟨i, hi, rfl⟩ := mem_iff_getElem.1 ha
  obtain ⟨j, hj, rfl⟩ := mem_iff_getElem.1 hb
  rw [hl.index_eq (getElem?_eq_getElem hi), hl.index_eq (getElem?_eq_getElem hj)] at h
  have hpair := pairwise_iff_getElem.1 (pairwise_map.1 hterms)
  exact hpair i j hi hj (by omega)

end OpLog

/-! ## Where the loop stops -/

variable {id : OpId}

/-- An id allows an operation that is above it neither by index nor by term. -/
def OpId.Allows (id : OpId) (m : ReplicateMsg) : Prop :=
  m.id.index ≤ id.index ∧ m.id.term ≤ id.term

instance (m : ReplicateMsg) : Decidable (id.Allows m) := inferInstanceAs (Decidable (_ ∧ _))

/-- The log lets the operations pass one after the other: an operation is a write, or what the log
has answered before allows it, or the answer to its own wait does. -/
def ApplyContext.Passes (ctx : ApplyContext) : OpId → List ReplicateMsg → Prop
  | _, [] => True
  | maxAllowed, m :: rest =>
    if m.opType = .writeOp ∨ maxAllowed.Allows m then ctx.Passes maxAllowed rest
    else (ctx.safeOpIdToApply m.id).Allows m ∧ ctx.Passes (ctx.safeOpIdToApply m.id) rest

namespace ReplicaState

variable {ι : Type*} {s s' : ReplicaState ι} {ctx : ApplyContext} {ok : Bool} {maxAllowed : OpId}
  {pending done left l t : List ReplicateMsg}

/-- What passes does so whatever comes after it. -/
lemma passes_of_append (h : ctx.Passes maxAllowed (l ++ t)) : ctx.Passes maxAllowed l := by
  induction l generalizing maxAllowed with
  | nil => trivial
  | cons m l ih =>
    rw [cons_append, ApplyContext.Passes] at h
    rw [ApplyContext.Passes]
    split_ifs at h ⊢
    · exact ih h
    · exact ⟨h.1, ih h.2⟩

/-- A loop that need not stop for writes applies operations that pass, and stops at the committed
index or at an operation that does not pass. -/
lemma applyLoop_passes {committedIndex : ℕ} {prevId : OpId}
    (h : applyLoop ctx false committedIndex prevId maxAllowed pending = some (done, left, ok)) :
    ctx.Passes maxAllowed done ∧
      ∀ m ∈ left.head?, committedIndex < m.id.index ∨ ¬ctx.Passes maxAllowed (done ++ [m]) := by
  induction pending generalizing prevId maxAllowed done left with
  | nil =>
    obtain ⟨rfl, rfl, rfl⟩ := h
    exact ⟨trivial, by simp⟩
  | cons round rest ih =>
    -- the operation is applied, and `allowed` is what the log has answered by then
    have hgo {allowed : OpId} (hmap : (applyLoop ctx false committedIndex round.id allowed rest).map
          (fun r => (round :: r.1, r.2.1, r.2.2)) = some (done, left, ok))
        (hpasses : ∀ l, ctx.Passes maxAllowed (round :: l) ↔ ctx.Passes allowed l) :
        ctx.Passes maxAllowed done ∧
          ∀ m ∈ left.head?, committedIndex < m.id.index ∨ ¬ctx.Passes maxAllowed (done ++ [m]) := by
      obtain ⟨⟨done', left', ok'⟩, hrec, heq⟩ := Option.map_eq_some_iff.1 hmap
      obtain ⟨rfl, rfl, rfl⟩ := heq
      obtain ⟨hdone, hleft⟩ := ih hrec
      refine ⟨(hpasses _).2 hdone, fun m hm => ?_⟩
      rw [cons_append, hpasses]
      exact hleft m hm
    simp only [applyLoop, Bool.false_eq_true, false_and, if_false] at h
    split_ifs at h with _ hpast hwrite hwait _ hbad
    · obtain ⟨rfl, rfl, rfl⟩ := h
      exact ⟨trivial, by simpa using .inl hpast⟩
    · refine hgo h fun l => ?_
      rw [ApplyContext.Passes, if_pos (.inl hwrite)]
    · obtain ⟨rfl, rfl, rfl⟩ := h
      refine ⟨trivial, ?_⟩
      rintro _ ⟨⟩
      right
      rw [nil_append, ApplyContext.Passes, if_neg (by simp [OpId.Allows, hwrite]; omega)]
      rintro ⟨hallows, -⟩
      simp only [OpId.Allows] at hallows
      omega
    · refine hgo h fun l => ?_
      rw [ApplyContext.Passes, if_neg (by simp [OpId.Allows, hwrite]; omega)]
      exact and_iff_right ⟨by omega, by omega⟩
    · refine hgo h fun l => ?_
      rw [ApplyContext.Passes, if_pos (.inr ⟨by omega, by omega⟩)]

/-- The index of a pending operation, and that the log has it there. -/
lemma Sound.getElem?_log_of_pending {m : ReplicateMsg} (hsnd : s.Sound)
    (hpend : s.pendingOperations = done ++ m :: left) :
    m.id.index = s.applied.length + done.length + 1 ∧ s.log[m.id.index - 1]? = some m := by
  have hget : s.log[s.applied.length + done.length]? = some m := by
    rw [log, hpend]
    simp
  have hidx := hsnd.indexed.index_eq hget
  exact ⟨hidx, by rw [hidx, Nat.add_sub_cancel, hget]⟩

/-- What is applied without a stop for writes: operations up to the index that pass, and as many of
them as there are. -/
lemma advanceCommittedOpId_passes (hsnd : s.Sound)
    (h : s.advanceCommittedOpId ctx id false = some (ok, s')) :
    ∃ done left, s.pendingOperations = done ++ left ∧ s' = s.finishApply done left ∧
      ctx.Passes OpId.min0 done ∧
      ∀ l, l <+: s.pendingOperations → s.applied.length + l.length ≤ id.index →
        ctx.Passes OpId.min0 l → l <+: done := by
  have hnone : s = s.finishApply [] s.pendingOperations := by simp [finishApply]
  simp only [advanceCommittedOpId] at h
  split_ifs at h with hcom hnil
  · cases h
    refine ⟨[], s.pendingOperations, rfl, hnone, trivial, fun l _ hlen _ => ?_⟩
    rw [hsnd.lastCommitted_index] at hcom
    rw [length_eq_zero_iff.1 (by omega : l.length = 0)]
  · cases h
    refine ⟨[], s.pendingOperations, rfl, hnone, trivial, fun l hl _ _ => ?_⟩
    rwa [hnil] at hl
  · obtain ⟨⟨done, left, ok'⟩, hloop, heq⟩ := Option.map_eq_some_iff.1 h
    have hpend := (applyLoop_spec hloop).1
    obtain ⟨hdone, hleft⟩ := applyLoop_passes hloop
    refine ⟨done, left, hpend, (Prod.mk.inj heq).2.symm, hdone, fun l hl hlen hpasses => ?_⟩
    have hpre : done <+: s.pendingOperations := hpend ▸ prefix_append _ _
    rcases prefix_or_prefix_of_prefix hl hpre with hle | ⟨_ | ⟨m, rest⟩, rfl⟩
    · exact hle
    · rw [append_nil]
    · -- the loop stopped at `m`, which passes and is not past the index
      rw [hpend, prefix_append_right_inj] at hl
      obtain ⟨rest', rfl⟩ := hl
      rcases hleft m rfl with hlt | hnot
      · rw [(hsnd.getElem?_log_of_pending hpend).1] at hlt
        rw [length_append, length_cons] at hlen
        omega
      · refine absurd (passes_of_append (t := rest) ?_) hnot
        rwa [append_assoc]

end ReplicaState

/-! ## A follower -/

namespace RaftConsensus

open ReplicaState

variable {ι : Type} [DecidableEq ι] {r r' : RaftConsensus ι} {self : ι} {cfg : RaftConfig ι}
  {request : ConsensusRequest ι} {leader : List ReplicateMsg} {s s' : ReplicaState ι}

/-- A follower whose log agrees with the leader's wherever both have an operation of one term at one
index has, after an update that ends well, the operations of the leader up to the last one of the
request. What it commits is in the request and committed by the leader. -/
theorem updateReplica_matches_leader {ctx : UpdateContext} {result : UpdateReplicaResult}
    (hsound : r.state.Sound) (hleader : Indexed leader)
    (hslice : IsSlice leader request.precedingId request.ops)
    (hcommitted : r.state.applied <+: leader) (hmatching : LogMatching r.state.log leader)
    (hprepared : request.ops.length ≤ ctx.numPrepared)
    (h : r.updateReplica self cfg request ctx = some (r', some result))
    (hok : result.response.status.error = none) :
    (∀ i < request.precedingId.index + request.ops.length, r'.state.log[i]? = leader[i]?) ∧
      r.state.lastCommittedOpId.index ≤ r'.state.lastCommittedOpId.index ∧
      (r'.state.lastCommittedOpId.index = r.state.lastCommittedOpId.index ∨
        r'.state.lastCommittedOpId.index ≤
          min (request.precedingId.index + request.ops.length) request.committedOpId.index) := by
  rcases updateReplica_follows hsound hleader (fun _ => ⟨hcommitted, hmatching⟩) hslice h with
    ⟨-, herr⟩ | ⟨-, -, hfol, -, hmatches⟩
  · exact absurd hok (herr result rfl)
  have htake := hmatches hprepared result rfl hok
  rw [hsound.lastCommitted_index, hfol.sound.lastCommitted_index]
  refine ⟨?_, hfol.applied.length_le, ?_⟩
  · intro i hi
    have hget := congrArg (fun l : List ReplicateMsg => l[i]?) htake
    simpa only [getElem?_take, if_pos hi] using hget
  · exact hfol.committed.imp (congrArg List.length) And.right

/-- A replica `0` of two in the term, with these operations. -/
def replicaWith (term : ℕ) (applied pending : List ReplicateMsg) : RaftConsensus (Fin 2) :=
  let log := applied ++ pending
  { (init 0 : RaftConsensus (Fin 2)) with
    state :=
      { currentTerm := term
        nextIndex := log.length + 1
        lastReceivedOpId := lastId log
        lastCommittedOpId := lastId applied
        pendingOperations := pending
        applied := applied }
    queue :=
      { (PeerMessageQueue.init 0 (lastId log)) with
        logCache := (LogCache.init (lastId log)) } }

lemma sound_replicaWith {term : ℕ} {applied pending : List ReplicateMsg}
    (h : Indexed (applied ++ pending)) : (replicaWith term applied pending).state.Sound :=
  ⟨h, rfl, rfl, rfl, .inl rfl⟩

/-- Two replicas. -/
def twoReplicas : RaftConfig (Fin 2) where
  voters := [0, 1]
  nodup := by decide

/-- An operation of the metadata of the tablet. -/
def metadataOp (term index : ℕ) : ReplicateMsg := ⟨⟨term, index⟩, 0, .otherOp, 1⟩

/-- The operation 1.3 of a follower is replaced by 2.3, and everything is committed. -/
theorem updateReplica_matches_leader_replaced :
    let leader := [metadataOp 1 1, metadataOp 1 2, metadataOp 2 3]
    let r := replicaWith 1 [metadataOp 1 1] [metadataOp 1 2, metadataOp 1 3]
    ∃ r' result, r.updateReplica 0 twoReplicas
        ⟨1, 2, ⟨1, 1⟩, ⟨2, 3⟩, [metadataOp 1 2, metadataOp 2 3], none, none, none, none⟩
        { now := 0, numPrepared := 2 } = some (r', some result) ∧
      r'.state.applied = leader ∧ ∀ i < 3, r'.state.log[i]? = leader[i]? := by
  intro leader r
  obtain ⟨r', result, h, hok, happl⟩ : ∃ r' result, r.updateReplica 0 twoReplicas
      ⟨1, 2, ⟨1, 1⟩, ⟨2, 3⟩, [metadataOp 1 2, metadataOp 2 3], none, none, none, none⟩
      { now := 0, numPrepared := 2 } = some (r', some result) ∧
      result.response.status.error = none ∧ r'.state.applied = leader := ⟨_, _, rfl, rfl, rfl⟩
  exact ⟨r', result, h, happl, (updateReplica_matches_leader (sound_replicaWith (by decide))
    (by decide : Indexed leader) (by decide) (by decide) (by decide) (by decide) h hok).1⟩

/-- A follower with operations 2.1 and 2.2 takes the operation 2.2 that a leader has after 1.1 for
its own. -/
theorem not_updateReplica_matches_leader :
    let leader := [metadataOp 1 1, metadataOp 2 2]
    let r := replicaWith 2 [] [metadataOp 2 1, metadataOp 2 2]
    r.state.Sound ∧ Indexed leader ∧ IsSlice leader ⟨2, 2⟩ [] ∧ r.state.applied <+: leader ∧
      ∃ r' result, r.updateReplica 0 twoReplicas
          ⟨1, 2, ⟨2, 2⟩, ⟨0, 0⟩, [], none, none, none, none⟩ { now := 0, numPrepared := 0 } =
            some (r', some result) ∧
        result.response.status.error = none ∧ r'.state.log[0]? ≠ leader[0]? := by
  intro leader r
  exact ⟨sound_replicaWith (by decide), by decide, by decide, by decide, _, _, rfl, rfl, by decide⟩

/-! ## Commit points of other nodes -/

end RaftConsensus

/-! ## A leader -/

namespace ReplicaState

variable {ι : Type*} {s s' : ReplicaState ι} {ctx : ApplyContext} {ok : Bool}

/-- On the way to an operation of the current term, the first one that the log does not let pass, if
there is one, comes after nothing or after an operation of the current term. -/
def CommitsCurrentTerm (s : ReplicaState ι) (ctx : ApplyContext) (id : OpId) : Prop :=
  id.term = s.currentTerm → ∀ done m rest, s.pendingOperations = done ++ m :: rest →
    m.id.index ≤ id.index → ctx.Passes OpId.min0 done → ¬ctx.Passes OpId.min0 (done ++ [m]) →
    ∀ last ∈ done.getLast?, last.id.term = s.currentTerm

/-- What is committed is a part of the log from its beginning, each operation once and in the order
of the indices, and the rest stays pending. -/
lemma Advances.split_log {index : ℕ} (hadv : s.Advances s' index) (hsnd : s.Sound) :
    s'.applied = s.log.take s'.lastCommittedOpId.index ∧
      s'.applied.map (·.id.index) = List.range' 1 s'.lastCommittedOpId.index ∧
      s'.pendingOperations = s.log.drop s'.lastCommittedOpId.index := by
  have hsnd' := hadv.sound hsnd
  rw [hsnd'.lastCommitted_index, ← hadv.log, hsnd'.indexed_applied.map_index]
  exact ⟨take_left.symm, rfl, drop_left.symm⟩

/-- Once an operation of the current term is committed, the pending ones are of the current term. -/
lemma term_eq_of_lastCommitted (hsnd : s.Sound) (hterms : (s.log.map (·.id.term)).Pairwise (· ≤ ·))
    (hcurrent : ∀ m ∈ s.log, m.id.term ≤ s.currentTerm)
    (hlast : s.lastCommittedOpId.term = s.currentTerm) {m : ReplicateMsg} (hm : m ∈ s.log)
    (hlt : s.applied.length < m.id.index) : m.id.term = s.currentTerm := by
  refine le_antisymm (hcurrent m hm) ?_
  rcases hsnd.lastCommitted_mem with hmin | ⟨m₀, hm₀, hid₀⟩
  · rw [← hlast, hmin]
    exact Nat.zero_le _
  · rw [← hlast, ← hid₀]
    refine term_le_of_index_lt hsnd.indexed hterms hm₀ hm ?_
    rwa [hid₀, hsnd.lastCommitted_index]

/-- The last operation that a leader applies on the way to an id of its log is of the current term,
exactly if this is so where the log stops it. -/
lemma term_eq_iff_commitsCurrentTerm {done left : List ReplicateMsg} {last : ReplicateMsg}
    (hsnd : s.Sound) (hterms : (s.log.map (·.id.term)).Pairwise (· ≤ ·))
    (hcurrent : ∀ m ∈ s.log, m.id.term ≤ s.currentTerm) (hmem : ∃ m ∈ s.log, m.id = id)
    (hterm : s.lastCommittedOpId.term = s.currentTerm ∨ id.term = s.currentTerm)
    (hpend : s.pendingOperations = done ++ last :: left) (hidx : last.id.index ≤ id.index)
    (hpasses : ctx.Passes OpId.min0 (done ++ [last]))
    (hmost : ∀ l, l <+: s.pendingOperations → s.applied.length + l.length ≤ id.index →
      ctx.Passes OpId.min0 l → l <+: done ++ [last]) :
    last.id.term = s.currentTerm ↔ s.CommitsCurrentTerm ctx id := by
  obtain ⟨hplace, hget⟩ := hsnd.getElem?_log_of_pending hpend
  have hlen : (done ++ [last]).length = done.length + 1 := length_append
  constructor
  · intro hlast _ done' m rest hpend' hle hdone' hnot
    have hplace' := (hsnd.getElem?_log_of_pending hpend').1
    -- the loop has stopped at `m`
    obtain ⟨_ | ⟨m', rest'⟩, hsame⟩ : done' <+: done ++ [last] :=
      hmost done' ⟨m :: rest, hpend'.symm⟩ (by omega) hdone'
    · rw [append_nil] at hsame
      rw [hsame, getLast?_concat]
      rintro _ ⟨⟩
      exact hlast
    · have hsplit : done' ++ m' :: (rest' ++ left) = done' ++ m :: rest := by
        rw [← hpend', hpend, append_cons done, ← hsame, append_assoc, cons_append]
      obtain ⟨rfl, -⟩ := cons_eq_cons.1 (append_cancel_left hsplit)
      rw [← hsame, append_cons] at hpasses
      exact absurd (passes_of_append hpasses) hnot
  · intro hcond
    have hlog : last ∈ s.log := mem_iff_getElem?.2 ⟨_, hget⟩
    rcases hterm with hlast | hid
    · exact term_eq_of_lastCommitted hsnd hterms hcurrent hlast hlog (by omega)
    obtain ⟨top, htop, rfl⟩ := hmem
    obtain ⟨i, hi⟩ := mem_iff_getElem?.1 htop
    have hindex := hsnd.indexed.index_eq hi
    rcases hidx.eq_or_lt with heq | hlt
    · -- the operation of the id itself is applied
      rw [heq, hindex, Nat.add_sub_cancel, hi] at hget
      rw [← Option.some.inj hget, hid]
    · have hlog' : s.log = s.applied ++ (done ++ [last]) ++ left := by
        rw [log, hpend, append_assoc, append_assoc]
        rfl
      obtain _ | ⟨m, rest⟩ := left
      · have htoplt := (List.getElem?_eq_some_iff.1 hi).1
        rw [hlog', append_nil, length_append] at htoplt
        omega
      rw [append_cons] at hpend
      have hplace' := (hsnd.getElem?_log_of_pending hpend).1
      refine hcond hid (done ++ [last]) m rest hpend (by omega) hpasses ?_ last (by simp)
      intro hpasses'
      have hlen' : (done ++ [last] ++ [m]).length = done.length + 1 + 1 := by simp
      have hle := (hmost _ ⟨rest, by rw [hpend]; simp⟩ (by omega) hpasses').length_le
      omega

/-- A leader whose log has non-decreasing terms commits by operations of its current term, exactly
if this is so where the log stops it before the operation that a majority has. What it commits is
applied once and in the order of the indices, and the rest stays pending. -/
theorem updateMajorityReplicated_commits {id : OpId} (hsound : s.Sound)
    (hterms : (s.log.map (·.id.term)).Pairwise (· ≤ ·))
    (hcurrent : ∀ m ∈ s.log, m.id.term ≤ s.currentTerm) (hmem : ∃ m ∈ s.log, m.id = id)
    (h : s.updateMajorityReplicated ctx id = some (ok, s')) :
    (s'.lastCommittedOpId ≠ s.lastCommittedOpId →
      (∃ m ∈ s.log, m.id = s'.lastCommittedOpId ∧ m.id.term = s.currentTerm) ∧
        s'.applied = s.log.take s'.lastCommittedOpId.index ∧
        s'.applied.map (·.id.index) = List.range' 1 s'.lastCommittedOpId.index ∧
        s'.pendingOperations = s.log.drop s'.lastCommittedOpId.index) ↔
      s.CommitsCurrentTerm ctx id := by
  rw [updateMajorityReplicated] at h
  split_ifs at h with hterm
  swap
  · cases h
    exact iff_of_true (absurd rfl) fun hid => absurd (.inr hid) hterm
  have hadvances := advances_advanceCommittedOpId hsound h
  obtain ⟨done, left, hpend, rfl, hpasses, hmost⟩ := advanceCommittedOpId_passes hsound h
  have hsplit := hadvances.split_log hsound
  rcases eq_nil_or_concat' done with rfl | ⟨done, last, rfl⟩
  · -- nothing is committed
    refine iff_of_true (absurd rfl) fun _ done m rest hpend' hle hdone _ last hlast => ?_
    have hplace := (hsound.getElem?_log_of_pending hpend').1
    have hnil := hmost done ⟨m :: rest, hpend'.symm⟩ (by omega) hdone
    rw [prefix_nil.1 hnil] at hlast
    cases hlast
  · rw [append_assoc, singleton_append] at hpend
    obtain ⟨hplace, hget⟩ := hsound.getElem?_log_of_pending hpend
    have hid : (s.finishApply (done ++ [last]) left).lastCommittedOpId = last.id := by
      simp [finishApply]
    have happlied : (s.finishApply (done ++ [last]) left).applied = s.applied ++ (done ++ [last]) :=
      rfl
    have hle : last.id.index ≤ id.index := by
      rcases hadvances.le with heq | hle
      · simp [happlied] at heq
      · rw [happlied, length_append, length_append, length_singleton] at hle
        omega
    have hne : last.id ≠ s.lastCommittedOpId := by
      intro heq
      rw [heq, hsound.lastCommitted_index] at hplace
      omega
    rw [← term_eq_iff_commitsCurrentTerm hsound hterms hcurrent hmem hterm hpend hle hpasses hmost]
    constructor
    · intro hcommits
      obtain ⟨⟨m, -, hm, hmterm⟩, -⟩ := hcommits (hid ▸ hne)
      rwa [hm, hid] at hmterm
    · intro hlast _
      exact ⟨⟨last, mem_iff_getElem?.2 ⟨_, hget⟩, hid.symm, hlast⟩, hsplit⟩

/-- The leader `0` of term 3, with two operations of term 1 and one of its own. -/
def leaderOfTerm3 : ReplicaState (Fin 2) where
  currentTerm := 3
  leaderUuid := some 0
  nextIndex := 4
  lastReceivedOpId := ⟨3, 3⟩
  lastReceivedOpIdCurrentLeader := ⟨3, 3⟩
  pendingOperations :=
    [RaftConsensus.metadataOp 1 1, RaftConsensus.metadataOp 1 2, ⟨⟨3, 3⟩, 0, .noOp, 1⟩]

lemma sound_leaderOfTerm3 : leaderOfTerm3.Sound :=
  ⟨by decide, rfl, rfl, rfl, .inr rfl⟩

theorem updateMajorityReplicated_commits_leaderOfTerm3 :
    ∃ s', leaderOfTerm3.updateMajorityReplicated {} ⟨3, 3⟩ = some (true, s') ∧
      s'.lastCommittedOpId = ⟨3, 3⟩ ∧ s'.applied.map (·.id.index) = [1, 2, 3] := by
  obtain ⟨s', h, hlast⟩ : ∃ s', leaderOfTerm3.updateMajorityReplicated {} ⟨3, 3⟩ =
      some (true, s') ∧ s'.lastCommittedOpId = ⟨3, 3⟩ := ⟨_, rfl, rfl⟩
  -- the log answers every wait with the operation that is waited for
  have hpasses : ∀ l maxAllowed, ({} : ApplyContext).Passes maxAllowed l := by
    intro l
    induction l with
    | nil => exact fun _ => trivial
    | cons m l ih =>
      intro maxAllowed
      rw [ApplyContext.Passes]
      split_ifs
      · exact ih _
      · exact ⟨⟨le_rfl, le_rfl⟩, ih _⟩
  have hcommits := (updateMajorityReplicated_commits sound_leaderOfTerm3 (by decide) (by decide)
    (by decide) h).2 (fun _ _ _ _ _ _ _ hnot => absurd (hpasses _ _) hnot) (by rw [hlast]; decide)
  refine ⟨s', h, hlast, ?_⟩
  rw [hcommits.2.2.1, hlast]
  rfl

/-- A log that has synced 2.1, an operation that the leader does not have, answers the wait for 1.2
with 2.1. The leader commits 1.1, and nothing of its own term. -/
theorem not_updateMajorityReplicated_commits : let wal : Log :=
      { entries := [RaftConsensus.metadataOp 2 1]
        numSynced := 1
        lastAppendedEntryOpId := ⟨2, 1⟩
        lastSyncedEntryOpId := ⟨2, 1⟩ }
    let ctx : ApplyContext := { safeOpIdToApply := fun _ => wal.lastSyncedEntryOpId }
    wal.isSafeOpIdToApply ⟨1, 1⟩ ∧ wal.isSafeOpIdToApply ⟨1, 2⟩ ∧ leaderOfTerm3.Sound ∧
      ∃ s', leaderOfTerm3.updateMajorityReplicated ctx ⟨3, 3⟩ = some (false, s') ∧
        s'.lastCommittedOpId ≠ leaderOfTerm3.lastCommittedOpId ∧
        s'.lastCommittedOpId.term ≠ leaderOfTerm3.currentTerm :=
  ⟨by decide, by decide, sound_leaderOfTerm3, _, rfl, by decide, by decide⟩

end ReplicaState
