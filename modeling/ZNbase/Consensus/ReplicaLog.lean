import ZNbase.Consensus.ElectionMetadata

/-!
# The log of a replica

The operations a replica has received, those it has applied first. The source keeps the ids at the
ends of this list and the next index in fields of their own; `ReplicaState.Sound` says that they
agree with the list. Each function of `ReplicaState` that touches the list is described by what it
does to it.
-/

open Option List

/-! ## Lists of operations -/

namespace OpLog

variable {l l' : List ReplicateMsg} {m : ReplicateMsg} {i k index : ℕ}

/-- The id of the last operation. -/
def lastId (l : List ReplicateMsg) : OpId := (l.getLast?.map (·.id)).getD OpId.min0

/-- The operations have the indices that follow on `k`. -/
def IndexedFrom (k : ℕ) (l : List ReplicateMsg) : Prop :=
  ∀ i m, l[i]? = some m → m.id.index = k + i + 1

/-- The operation with index `i + 1` is at place `i`. -/
def Indexed (l : List ReplicateMsg) : Prop := IndexedFrom 0 l

/-- The request of a leader with the log `l` that has the operations after `preceding`. -/
def IsSlice (l : List ReplicateMsg) (preceding : OpId) (ops : List ReplicateMsg) : Prop :=
  preceding.index ≤ l.length ∧ lastId (l.take preceding.index) = preceding ∧
    ops <+: l.drop preceding.index

instance (preceding : OpId) (ops : List ReplicateMsg) : Decidable (IsSlice l preceding ops) := by
  unfold IsSlice
  infer_instance

lemma indexedFrom_cons_iff :
    IndexedFrom k (m :: l) ↔ m.id.index = k + 1 ∧ IndexedFrom (k + 1) l := by
  constructor
  · intro h
    refine ⟨h 0 m rfl, ?_⟩
    intro i m' hm'
    have := h (i + 1) m' hm'
    omega
  · rintro ⟨hm, hl⟩ i m' hm'
    cases i with
    | zero =>
      obtain rfl : m = m' := by simpa using hm'
      exact hm
    | succ i =>
      have := hl i m' (by simpa using hm')
      omega

/-- A list with consecutive indices is cut anywhere into two of them. -/
lemma indexedFrom_append_iff :
    IndexedFrom k (l ++ l') ↔ IndexedFrom k l ∧ IndexedFrom (k + l.length) l' := by
  induction l generalizing k with
  | nil => simp [IndexedFrom]
  | cons m l ih =>
    rw [cons_append, indexedFrom_cons_iff, indexedFrom_cons_iff, ih, length_cons,
      and_assoc, Nat.add_assoc, Nat.add_comm 1]

lemma indexed_append_iff : Indexed (l ++ l') ↔ Indexed l ∧ IndexedFrom l.length l' := by
  rw [Indexed, indexedFrom_append_iff, Nat.zero_add]
  rfl

/-- The operation at a place has the index after it. -/
lemma Indexed.index_eq (h : Indexed l) (hm : l[i]? = some m) : m.id.index = i + 1 := by
  have := h i m hm
  omega

/-- The beginning of a log has consecutive indices. -/
lemma Indexed.of_isPrefix (h : Indexed l) (hl : l' <+: l) : Indexed l' := by
  obtain ⟨r, rfl⟩ := hl
  exact (indexed_append_iff.1 h).1

@[simp] lemma lastId_nil : lastId [] = OpId.min0 := rfl

lemma lastId_append_singleton : lastId (l ++ [m]) = m.id := by
  simp [lastId]

lemma lastId_of_getLast? (h : l.getLast? = some m) : lastId l = m.id := by
  simp [lastId, h]

/-- The last id of a log is that of its last part. -/
lemma lastId_append (h : l'.getLast? = some m) : lastId (l ++ l') = m.id := by
  simp [lastId, h]

/-- The id at the end of what precedes a place. -/
lemma lastId_take_succ (h : l[i]? = some m) : lastId (l.take (i + 1)) = m.id := by
  apply lastId_of_getLast?
  rw [take_add_one, h]
  simp

/-- The last index is the number of operations. -/
lemma Indexed.lastId_index (h : Indexed l) : (lastId l).index = l.length := by
  rcases eq_nil_or_concat l with rfl | ⟨l', m, rfl⟩
  · rfl
  · rw [concat_eq_append] at h ⊢
    rw [lastId_append_singleton]
    have hm := h.index_eq (i := l'.length) (m := m) (by simp)
    simp [hm]

/-- A nonempty log ends with an operation that has the last id. -/
lemma exists_getElem?_of_lastId (hl : l ≠ []) :
    ∃ m, l[l.length - 1]? = some m ∧ lastId l = m.id := by
  refine ⟨l.getLast hl, ?_, ?_⟩
  · rw [← getLast?_eq_getElem?, getLast?_eq_some_getLast hl]
  · exact lastId_of_getLast? (getLast?_eq_some_getLast hl)

/-- An operation of the log has this id, or it is the smallest one. -/
def IdOf (l : List ReplicateMsg) (id : OpId) : Prop := id = OpId.min0 ∨ id ∈ l.map (·.id)

instance (l : List ReplicateMsg) (id : OpId) : Decidable (IdOf l id) :=
  inferInstanceAs (Decidable (_ ∨ _))

/-- An id of a log is one of a larger log. -/
lemma IdOf.mono {id : OpId} (h : IdOf l id) (hsub : l ⊆ l') : IdOf l' id :=
  h.imp_right fun hmem => map_subset _ hsub hmem

lemma IdOf.of_mem (h : m ∈ l) : IdOf l m.id :=
  .inr (mem_map_of_mem h)

/-- Nothing follows on an operation of the log. -/
lemma IdOf.isSlice {id : OpId} (h : IdOf l id) (hidx : Indexed l) : IsSlice l id [] := by
  rcases h with rfl | hmem
  · exact ⟨Nat.zero_le _, rfl, nil_prefix⟩
  obtain ⟨m, hm, rfl⟩ := mem_map.1 hmem
  obtain ⟨i, hi⟩ := mem_iff_getElem?.1 hm
  rw [IsSlice, hidx.index_eq hi]
  exact ⟨(List.getElem?_eq_some_iff.1 hi).1, lastId_take_succ hi, nil_prefix⟩

/-- An operation is found by its index at the place of the index. -/
lemma IndexedFrom.find?_index (h : IndexedFrom k l) (index : ℕ) :
    l.find? (fun m => m.id.index = index) = if k < index then l[index - (k + 1)]? else none := by
  induction l generalizing k with
  | nil => simp
  | cons m l ih =>
    obtain ⟨hm, hl⟩ := indexedFrom_cons_iff.1 h
    by_cases hidx : m.id.index = index
    · have hk : index - (k + 1) = 0 := by omega
      rw [find?_cons_of_pos (by simpa using hidx), if_pos (by omega), hk]
      rfl
    · rw [find?_cons_of_neg (by simpa using hidx), ih hl]
      by_cases hlt : k + 1 < index
      · have hsub : index - (k + 1) = index - (k + 1 + 1) + 1 := by omega
        rw [if_pos hlt, if_pos (by omega), hsub, getElem?_cons_succ]
      · rw [if_neg hlt, if_neg (by omega)]

/-- The operations up to an index are the first ones. -/
lemma IndexedFrom.takeWhile_index_le (h : IndexedFrom k l) (index : ℕ) :
    l.takeWhile (fun m => m.id.index ≤ index) = l.take (index - k) := by
  induction l generalizing k with
  | nil => simp
  | cons m l ih =>
    obtain ⟨hm, hl⟩ := indexedFrom_cons_iff.1 h
    by_cases hidx : m.id.index ≤ index
    · have hsub : index - k = index - (k + 1) + 1 := by omega
      rw [takeWhile_cons_of_pos (by simpa using hidx), ih hl, hsub, take_succ_cons]
    · have hsub : index - k = 0 := by omega
      rw [takeWhile_cons_of_neg (by simpa using hidx), hsub, take_zero]

end OpLog

/-! ## The state of a replica -/

namespace ReplicaState

open OpLog

variable {ι : Type*} {s s' s₀ : ReplicaState ι} {ctx : ApplyContext} {couldStop ok : Bool}

/-- The operations that the replica has received. -/
def log (s : ReplicaState ι) : List ReplicateMsg := s.applied ++ s.pendingOperations

/-- The ids that the replica keeps are those of its log. -/
structure Sound (s : ReplicaState ι) : Prop where
  indexed : Indexed s.log
  lastReceived : s.lastReceivedOpId = lastId s.log
  lastCommitted : s.lastCommittedOpId = lastId s.applied
  nextIndex : s.nextIndex = s.log.length + 1
  currentLeader : s.lastReceivedOpIdCurrentLeader = OpId.min0 ∨
    s.lastReceivedOpIdCurrentLeader = s.lastReceivedOpId

lemma applied_prefix_log : s.applied <+: s.log := prefix_append _ _

/-- The ids are those at the end of a new log. -/
lemma sound_of_log {l : List ReplicateMsg} (hlog : s.log = l) (hidx : Indexed l)
    (hlast : s.lastReceivedOpId = lastId l) (hcom : s.lastCommittedOpId = lastId s.applied)
    (hnext : s.nextIndex = s.lastReceivedOpId.index + 1)
    (hlead : s.lastReceivedOpIdCurrentLeader = s.lastReceivedOpId) : s.Sound := by
  subst hlog
  exact ⟨hidx, hlast, hcom, by rw [hnext, hlast, hidx.lastId_index], .inr hlead⟩

section

variable (h : s.Sound)

include h

/-- The applied operations have consecutive indices. -/
lemma Sound.indexed_applied : Indexed s.applied :=
  h.indexed.of_isPrefix applied_prefix_log

/-- The commit index is the number of applied operations. -/
lemma Sound.lastCommitted_index : s.lastCommittedOpId.index = s.applied.length := by
  rw [h.lastCommitted, h.indexed_applied.lastId_index]

/-- The last received index is the number of all operations. -/
lemma Sound.lastReceived_index : s.lastReceivedOpId.index = s.log.length := by
  rw [h.lastReceived, h.indexed.lastId_index]

/-- The last committed operation is one of the log, if there is one. -/
lemma Sound.lastCommitted_mem :
    s.lastCommittedOpId = OpId.min0 ∨ ∃ m ∈ s.log, m.id = s.lastCommittedOpId := by
  rw [h.lastCommitted]
  rcases eq_nil_or_concat s.applied with hnil | ⟨l, m, hl⟩
  · rw [hnil]
    exact .inl rfl
  · rw [concat_eq_append] at hl
    refine .inr ⟨m, applied_prefix_log.subset (by simp [hl]), ?_⟩
    rw [hl, lastId_append_singleton]

/-- The pending operations follow the applied ones. -/
lemma Sound.indexedFrom_pending : IndexedFrom s.applied.length s.pendingOperations :=
  (indexed_append_iff.1 h.indexed).2

/-- The fields of `Sound` are kept by a change of all other fields. -/
lemma Sound.of_eq (hpend : s'.pendingOperations = s.pendingOperations)
    (happl : s'.applied = s.applied) (hrecv : s'.lastReceivedOpId = s.lastReceivedOpId)
    (hcom : s'.lastCommittedOpId = s.lastCommittedOpId)
    (hnext : s'.nextIndex = s.nextIndex)
    (hlead : s'.lastReceivedOpIdCurrentLeader = OpId.min0 ∨
      s'.lastReceivedOpIdCurrentLeader = s.lastReceivedOpIdCurrentLeader) : s'.Sound := by
  have hlog : s'.log = s.log := by rw [log, hpend, happl, log]
  refine ⟨hlog ▸ h.indexed, hlog ▸ hrecv.trans h.lastReceived,
    happl ▸ hcom.trans h.lastCommitted, hlog ▸ hnext.trans h.nextIndex, ?_⟩
  rcases hlead with hmin | heq
  · exact .inl hmin
  · rw [heq, hrecv]
    exact h.currentLeader

/-- The term is not part of the invariant. -/
lemma Sound.setCurrentTerm {newTerm : ℕ} : (s.setCurrentTerm newTerm).Sound :=
  h.of_eq rfl rfl rfl rfl rfl (.inl rfl)

/-! ### Looking up operations -/

/-- A pending operation is looked up at its place in the log. -/
lemma Sound.getPendingOpByIndex_eq_some_iff {index : ℕ} {m : ReplicateMsg} :
    s.getPendingOpByIndex index = some m ↔ s.applied.length < index ∧
      s.log[index - 1]? = some m := by
  rw [getPendingOpByIndex, h.indexedFrom_pending.find?_index]
  by_cases hlt : s.applied.length < index
  · have hsub : index - (s.applied.length + 1) = index - 1 - s.applied.length := by omega
    rw [log, List.getElem?_append_right (by omega), hsub]
    simp
  · simp [hlt]

/-- What `IsOpCommittedOrPending` finds. -/
lemma Sound.isOpCommittedOrPending_spec {opId : OpId} {lookup : OpLookup}
    (hl : s.isOpCommittedOrPending opId = some lookup) :
    (lookup = .committedOrPending → opId.index ≤ s.applied.length ∨
        s.applied.length < opId.index ∧ ∃ m, s.log[opId.index - 1]? = some m ∧ m.id = opId) ∧
      (lookup = .missing → s.log.length < opId.index) ∧
      (lookup = .termMismatch → s.applied.length < opId.index ∧
        ∃ m, s.log[opId.index - 1]? = some m ∧ m.id.term ≠ opId.term) := by
  rw [isOpCommittedOrPending, h.lastCommitted_index, h.lastReceived_index] at hl
  split_ifs at hl with hcom hmissing
  · cases hl
    simp [hcom]
  · cases hl
    simp [hmissing]
  obtain ⟨m, hm, hterm⟩ := map_eq_some_iff.1 hl
  obtain ⟨hlt, hm⟩ := h.getPendingOpByIndex_eq_some_iff.1 hm
  have hidx : m.id.index = opId.index := by
    rw [h.indexed.index_eq hm]
    omega
  split_ifs at hterm with hne
  · subst hterm
    simp only [reduceCtorEq, false_implies, true_and, forall_const]
    exact ⟨hlt, m, hm, hne⟩
  · subst hterm
    simp only [forall_const, reduceCtorEq, false_implies, and_true]
    exact .inr ⟨hlt, m, hm, OpId.ext (not_not.1 hne) hidx⟩

end

/-! ### Committing and aborting -/

/-- Committing moves operations from the pending to the applied ones. -/
structure Advances (s s' : ReplicaState ι) (index : ℕ) : Prop where
  log : s'.log = s.log
  applied : s.applied <+: s'.applied
  le : s'.applied = s.applied ∨ s'.applied.length ≤ index
  sound : s.Sound → s'.Sound

/-- The commit index advances over the first of the pending operations. -/
lemma advances_advanceCommittedOpId {committedOpId : OpId} (hs : s.Sound)
    (h : s.advanceCommittedOpId ctx committedOpId couldStop = some (ok, s')) :
    Advances s s' committedOpId.index := by
  obtain ⟨done, left, hpend, hdone, rfl⟩ := advanceCommittedOpId_spec h
  -- applied operations stay in the log
  have hlog : (s.finishApply done left).log = s.log := by
    rw [log, log, hpend, ← append_assoc]
    rfl
  have hpfx : s.applied ++ done <+: s.log := by
    rw [log, hpend, ← append_assoc]
    exact prefix_append _ _
  refine ⟨hlog, prefix_append _ _, ?_, ?_⟩
  · rcases eq_nil_or_concat done with rfl | ⟨done', m, rfl⟩
    · exact .inl (append_nil _)
    right
    rw [concat_eq_append] at hdone hpfx ⊢
    have hidx := hs.indexed.of_isPrefix hpfx
    have hm := hidx.lastId_index
    rw [← append_assoc, lastId_append_singleton] at hm
    -- the last applied one is not above the bound
    have hle := hdone m (by simp)
    change (s.applied ++ (done' ++ [m])).length ≤ committedOpId.index
    rw [← append_assoc, ← hm]
    exact hle
  · intro _
    refine ⟨hlog ▸ hs.indexed, hlog ▸ hs.lastReceived, ?_, hlog ▸ hs.nextIndex, hs.currentLeader⟩
    change (done.getLast?.map (·.id)).getD s.lastCommittedOpId = lastId (s.applied ++ done)
    rcases eq_nil_or_concat done with rfl | ⟨done', m, rfl⟩
    · rw [append_nil]
      exact hs.lastCommitted
    · rw [concat_eq_append, ← append_assoc, lastId_append_singleton]
      simp

/-- Aborting cuts the log, and not before what is applied. -/
lemma Sound.abortOpsAfter_spec {index : ℕ} (h : s.Sound) (hs : s.abortOpsAfter index = some s') :
    s.applied.length ≤ index ∧ index ≤ s.log.length ∧ s'.Sound ∧ s'.applied = s.applied ∧
      s'.log = s.log.take index := by
  -- `newPreceding` is the last operation that is kept
  have hcut : ∀ newPreceding : OpId, s.applied.length ≤ index → index ≤ s.log.length →
      newPreceding = lastId (s.log.take index) →
      s' = { s with
        lastReceivedOpId := newPreceding
        lastReceivedOpIdCurrentLeader := newPreceding
        nextIndex := newPreceding.index + 1
        pendingOperations :=
          s.pendingOperations.takeWhile fun m => m.id.index ≤ index } →
      s.applied.length ≤ index ∧ index ≤ s.log.length ∧ s'.Sound ∧ s'.applied = s.applied ∧
        s'.log = s.log.take index := by
    rintro newPreceding hle hlen hlast rfl
    have hlog : s.applied ++ s.pendingOperations.takeWhile fun m => m.id.index ≤ index =
        s.log.take index := by
      rw [h.indexedFrom_pending.takeWhile_index_le, log, take_append, take_of_length_le hle]
    have hidx : Indexed (s.log.take index) := h.indexed.of_isPrefix ( take_prefix _ _)
    exact ⟨hle, hlen, sound_of_log hlog hidx hlast h.lastCommitted rfl rfl, rfl, hlog⟩
  rw [abortOpsAfter] at hs
  cases hfind : s.getPendingOpByIndex index with
  | some m =>
    obtain ⟨hlt, hm⟩ := h.getPendingOpByIndex_eq_some_iff.1 hfind
    have hlen := (List.getElem?_eq_some_iff.1 hm).1
    rw [hfind] at hs
    have hlast := lastId_take_succ hm
    rw [Nat.sub_add_cancel (by omega)] at hlast
    exact hcut m.id hlt.le (by omega) hlast.symm (Option.some.inj hs).symm
  | none =>
    rw [hfind] at hs
    split_ifs at hs with heq
    rw [h.lastCommitted_index] at heq
    refine hcut s.lastCommittedOpId heq.ge ?_ ?_ (Option.some.inj hs).symm
    · rw [heq]
      exact applied_prefix_log.length_le
    · rw [h.lastCommitted, heq, log, take_left]

/-! ### Adding operations on a leader -/

/-- The state `s` of a leader with new operations at the end of its log. The last id received is set
once all of them are added. An id that was given back may have set it to one of the current term. -/
structure Adds (s₀ s : ReplicaState ι) (msgs : List ReplicateMsg) : Prop where
  pending : s.pendingOperations = s₀.pendingOperations ++ msgs
  applied : s.applied = s₀.applied
  committed : s.lastCommittedOpId = s₀.lastCommittedOpId
  currentLeader : s.lastReceivedOpIdCurrentLeader = s₀.lastReceivedOpIdCurrentLeader
  metadata : s.metadata = s₀.metadata
  nextIndex : s.nextIndex = s₀.nextIndex + msgs.length
  ids : ∀ (i : ℕ) (m : ReplicateMsg), msgs[i]? = some m →
    m.id = ⟨s₀.currentTerm, s₀.nextIndex + i⟩
  received : msgs = [] → s.lastReceivedOpId = s₀.lastReceivedOpId ∨
    s.lastReceivedOpId = ⟨s₀.currentTerm, s₀.nextIndex - 1⟩

variable {msgs : List ReplicateMsg} {msg : ReplicateMsg}

lemma Adds.refl (s : ReplicaState ι) : Adds s s [] :=
  ⟨(append_nil _).symm, rfl, rfl, rfl, rfl, rfl, by simp, fun _ => .inl rfl⟩

section

variable (h : Adds s₀ s msgs)

include h

lemma Adds.term : s.currentTerm = s₀.currentTerm := congrArg Prod.fst h.metadata

/-- The rounds that were added are at the end of the log. -/
lemma Adds.log : s.log = s₀.log ++ msgs := by
  rw [ReplicaState.log, h.applied, h.pending, ← append_assoc, ReplicaState.log]

/-- They have the next indices. -/
lemma Adds.indexed (h₀ : s₀.Sound) : Indexed (s₀.log ++ msgs) := by
  refine indexed_append_iff.2 ⟨h₀.indexed, ?_⟩
  intro i m hm
  rw [h.ids i m hm, h₀.nextIndex, Nat.add_right_comm]

/-- They are of the current term. -/
lemma Adds.term_eq {m : ReplicateMsg} (hm : m ∈ msgs) : m.id.term = s₀.currentTerm := by
  obtain ⟨i, hi⟩ := mem_iff_getElem?.1 hm
  rw [h.ids i m hi]

/-- An operation with the next id is added. -/
lemma Adds.add (hid : msg.id = s.newId.1)
    (hpend : s'.pendingOperations = s.pendingOperations ++ [msg])
    (happl : s'.applied = s.applied) (hcom : s'.lastCommittedOpId = s.lastCommittedOpId)
    (hlead : s'.lastReceivedOpIdCurrentLeader = s.lastReceivedOpIdCurrentLeader)
    (hmeta : s'.metadata = s.metadata) (hnext : s'.nextIndex = s.nextIndex + 1) :
    Adds s₀ s' (msgs ++ [msg]) where
  pending := by rw [hpend, h.pending, append_assoc]
  applied := happl.trans h.applied
  committed := hcom.trans h.committed
  currentLeader := hlead.trans h.currentLeader
  metadata := hmeta.trans h.metadata
  nextIndex := by rw [hnext, h.nextIndex, length_append, List.length_singleton, Nat.add_assoc]
  ids i m hm := by
    rcases Nat.lt_or_ge i msgs.length with hi | hi
    · rw [List.getElem?_append_left hi] at hm
      exact h.ids i m hm
    rw [List.getElem?_append_right hi] at hm
    obtain ⟨hlt, hm⟩ := List.getElem?_eq_some_iff.1 hm
    have hi' : i = msgs.length := by
      simp only [List.length_singleton] at hlt
      omega
    simp only [getElem_singleton] at hm
    rw [← hm, hid, hi', newId, h.term, h.nextIndex]
  received hnil := by simp at hnil

/-- The id of an operation that was not added is given back. The replica takes the operation before
it to be of the current term. -/
lemma Adds.cancel_not_added (hs : s.newId.2.cancelPendingOperation s.newId.1 false = some s') :
    Adds s₀ s' msgs := by
  simp only [cancelPendingOperation, newId, and_self, if_true, Option.some.injEq] at hs
  subst hs
  refine { h with received := ?_ }
  rintro rfl
  have hnext : s.nextIndex = s₀.nextIndex := h.nextIndex
  rw [← h.term, ← hnext]
  exact .inr rfl

end

/-- The last operation that was added is taken back. -/
lemma Adds.cancel_added (h : Adds s₀ s (msgs ++ [msg]))
    (hs : s.cancelPendingOperation msg.id true = some s') : Adds s₀ s' msgs := by
  have hid : msg.id = ⟨s₀.currentTerm, s₀.nextIndex + msgs.length⟩ := h.ids _ msg (by simp)
  simp only [cancelPendingOperation] at hs
  split_ifs at hs
  cases hs
  refine ⟨?_, h.applied, h.committed, h.currentLeader, h.metadata, ?_, ?_, ?_⟩
  · rw [h.pending, ← append_assoc, dropLast_concat]
  · rw [hid]
  · intro i m hm
    refine h.ids i m ?_
    rw [List.getElem?_append_left (List.getElem?_eq_some_iff.1 hm).1]
    exact hm
  · rintro rfl
    rw [hid]
    exact .inr rfl

/-- The state after all operations are added. -/
lemma Adds.sound_updateLastReceivedOpId (h : Adds s₀ s msgs) (h₀ : s₀.Sound)
    {last : ReplicateMsg} (hlast : msgs.getLast? = some last) :
    (s.updateLastReceivedOpId last.id).Sound := by
  have hcom := h.committed.trans (h₀.lastCommitted.trans (congrArg lastId h.applied.symm))
  exact sound_of_log h.log (h.indexed h₀) (lastId_append hlast).symm hcom rfl rfl

/-- After a rollback the replica is in order, if the last operation was of the current term. -/
lemma Adds.sound_of_nil (h : Adds s₀ s []) (h₀ : s₀.Sound)
    (hlast : s₀.lastReceivedOpId = ⟨s₀.currentTerm, s₀.nextIndex - 1⟩) : s.Sound := by
  have hrecv : s.lastReceivedOpId = s₀.lastReceivedOpId :=
    (h.received rfl).elim id (·.trans hlast.symm)
  refine h₀.of_eq ?_ h.applied hrecv h.committed ?_ (.inr h.currentLeader)
  · rw [h.pending, append_nil]
  · rw [h.nextIndex, length_nil, Nat.add_zero]

end ReplicaState

/-! ## Appending operations on a leader -/

namespace RaftConsensus

open OpLog ReplicaState

variable {ι : Type} [DecidableEq ι] {r r' : RaftConsensus ι} {self : ι} {cfg : RaftConfig ι}
  {now : CoarseTimePoint} {s₀ s s' : ReplicaState ι} {msgs msgs' : List ReplicateMsg}

omit [DecidableEq ι] in
/-- A rollback takes the last rounds back. -/
lemma adds_rollbackIds (h : Adds s₀ s (msgs ++ msgs')) (hs : rollbackIds s msgs' = some s') :
    Adds s₀ s' msgs := by
  induction msgs' generalizing msgs s' with
  | nil =>
    rw [append_nil] at h
    cases hs
    exact h
  | cons msg rest ih =>
    simp only [rollbackIds, bind_eq_bind, bind_eq_some_iff] at hs
    obtain ⟨s₁, hrest, hcan⟩ := hs
    have h₁ : Adds s₀ s₁ (msgs ++ [msg]) := ih (by rw [append_assoc]; exact h) hrest
    exact h₁.cancel_added hcan

variable {rounds : List NewRound}

/-- The loop adds operations of the current term. -/
lemma adds_addRounds (h : Adds s₀ s msgs)
    (hs : addRounds cfg self now s msgs rounds = some (s', msgs')) : Adds s₀ s' msgs' := by
  induction rounds generalizing s msgs with
  | nil =>
    obtain ⟨rfl, rfl⟩ := hs
    exact h
  | cons round rest ih =>
    simp only [addRounds] at hs
    split at hs
    · -- the round is added
      rename_i s₁ hadd
      have hid : (⟨s.newId.1, round.hybridTime, round.opType, round.byteSize⟩ :
        ReplicateMsg).id = s.newId.1 := rfl
      refine ih (h.add hid ?_ ?_ ?_ ?_ ?_ ?_) hs
      all_goals
        simp only [addPendingOperation] at hadd
        split_ifs at hadd
        cases hadd
        rfl
    · simp only [bind_eq_bind, bind_eq_some_iff] at hs
      -- it is a duplicate, and its id is given back
      obtain ⟨s₁, hcan, hs⟩ := hs
      exact ih (h.cancel_not_added hcan) hs
    · simp only [bind_eq_bind, bind_eq_some_iff] at hs
      -- it is rejected, and so are those before it
      obtain ⟨s₁, hcan, s₂, hroll, rfl, rfl⟩ := hs
      have h₁ : Adds s₀ s₁ ([] ++ msgs) := h.cancel_not_added hcan
      exact adds_rollbackIds h₁ hroll

/-- An append does not change the term or the vote. -/
lemma metadata_appendNewRoundsToQueue (h : r.appendNewRoundsToQueue self cfg now rounds = some r') :
    r'.state.metadata = r.state.metadata := by
  simp only [appendNewRoundsToQueue, bind_eq_bind, bind_eq_some_iff] at h
  obtain ⟨⟨s, msgs⟩, hadd, h⟩ := h
  have hs := (adds_addRounds (.refl r.state) hadd).metadata
  split at h
  · cases h
    exact hs
  · simp only [bind_eq_some_iff, Option.some.injEq] at h
    obtain ⟨⟨queue, log⟩, -, rfl⟩ := h
    exact hs

/-- A `NO_OP` is never refused. -/
lemma addRounds_noOp_length (hnoOp : ∀ round ∈ rounds, round.opType = .noOp)
    (hs : addRounds cfg self now s msgs rounds = some (s', msgs')) :
    msgs'.length = msgs.length + rounds.length := by
  induction rounds generalizing s msgs with
  | nil =>
    simp only [addRounds, Option.some.injEq, Prod.mk.injEq] at hs
    rw [← hs.2, length_nil, Nat.add_zero]
  | cons round rest ih =>
    have hop := hnoOp round mem_cons_self
    simp only [addRounds, addPendingOperation, hop, ne_eq, not_true_eq_false, false_and, and_false]
      at hs
    rw [ih (fun r hr => hnoOp r (mem_cons_of_mem _ hr)) hs, length_append, List.length_singleton,
      length_cons]
    omega

/-- A leader appends operations of its term to its log, and then to its queue. -/
lemma appendNewRoundsToQueue_spec (hsnd : r.state.Sound)
    (hlast : lastId r.state.log = ⟨r.state.currentTerm, r.state.log.length⟩ ∨ ∀ round ∈ rounds,
      round.opType = .noOp)
    (h : r.appendNewRoundsToQueue self cfg now rounds = some r') :
    ∃ msgs, r'.state.log = r.state.log ++ msgs ∧ r'.state.applied = r.state.applied ∧
      (∀ m ∈ msgs, m.id.term = r.state.currentTerm) ∧ r'.state.Sound ∧
      ((∀ round ∈ rounds, round.opType = .noOp) → msgs.length = rounds.length) ∧
      (msgs = [] ∧ r' = { r with state := r'.state } ∨
        msgs ≠ [] ∧ ∃ queue log, r.queue.appendOperations r.log msgs r.state.lastCommittedOpId =
            some (queue, log) ∧ r' = { r with state := r'.state, queue := queue, log := log }) := by
  simp only [appendNewRoundsToQueue, bind_eq_bind, bind_eq_some_iff] at h
  obtain ⟨⟨s, msgs⟩, hadd, h⟩ := h
  have hadds : Adds r.state s msgs := adds_addRounds (.refl r.state) hadd
  have hlength : (∀ round ∈ rounds, round.opType = .noOp) → msgs.length = rounds.length := by
    intro hnoOp
    have hlen := addRounds_noOp_length hnoOp hadd
    simpa using hlen
  refine ⟨msgs, ?_⟩
  split at h
  · rename_i hnil
    obtain rfl : msgs = [] := getLast?_eq_none_iff.1 hnil
    cases h
    have hsnd' : s.Sound := by
      rcases hlast with hl | hnoOp
      · refine hadds.sound_of_nil hsnd ?_
        rw [hsnd.lastReceived, hl, hsnd.nextIndex]
        rfl
      · -- no `NO_OP` is refused, so there was none
        obtain rfl : rounds = [] := length_eq_zero_iff.1 (hlength hnoOp).symm
        cases hadd
        exact hsnd
    exact ⟨hadds.log, hadds.applied, fun _ => hadds.term_eq, hsnd', hlength, .inl ⟨rfl, rfl⟩⟩
  · rename_i last hmsgs
    simp only [bind_eq_some_iff, Option.some.injEq] at h
    obtain ⟨⟨queue, log⟩, hque, rfl⟩ := h
    refine ⟨hadds.log, hadds.applied, fun _ =>
      hadds.term_eq, hadds.sound_updateLastReceivedOpId hsnd hmsgs, hlength,
      .inr ⟨?_, queue, log, hadds.committed ▸ hque, rfl⟩⟩
    rintro rfl
    simp at hmsgs

end RaftConsensus
