import ZNbase.Tablet.TabletBootstrap
import ZNbase.Lib.OverwrittenLog
import Mathlib.Data.List.Chain
import Mathlib.Tactic.IntervalCases

/-!
# Replay of the log is exact

What `PlaySegments` applies and what it hands over, for every log that a replica can have written
(`Written`).

- The pending entries are the surviving ones after the committed id, and what was applied are the
  surviving ones up to it (`Replayed`). This holds for the part of the log that was read, wherever
  the replay started.
- A committed id names an entry that was in the log when the id was written and that stays there
  (`Names`). In a log whose terms do not decrease the surviving entries are in the order of their
  ids, so that comparing ids is the same as comparing positions.
- Where replay may start, the entries before are below the lowest id to replay
  (`skipFlushedEntries_spec`, `Written.skipped_lt`), also if the entry at which it starts is
  overwritten later.
-/

open List

namespace TabletBootstrap

open OverwrittenLog

def Entry.opId (e : Entry) : OpId := e.replicate.id

def Entry.index (e : Entry) : ℕ := e.opId.index

/-- The entries of the log that are not overwritten. -/
abbrev surviving (wal : List Entry) : List Entry := survivors Entry.index wal

/-- All entries of some segments. -/
def entriesOf (segments : List LogSegment) : List Entry := segments.flatMap (·.entries)

/-- The id is that of an entry of the log `before`, and what is written after it does not overwrite
that entry; or there is none yet. -/
def Names (before after : List Entry) (id : OpId) : Prop :=
  id = .min0 ∨ ∃ x ∈ surviving before, x.opId = id ∧ ∀ y ∈ after, x.index < y.index

instance (before after : List Entry) (id : OpId) : Decidable (Names before after id) :=
  inferInstanceAs (Decidable (_ ∨ _))

/-- A log that a replica can have written. -/
structure Written (segments : List LogSegment) : Prop where
  index_pos : ∀ e ∈ entriesOf segments, 1 ≤ e.index
  /-- An entry follows the one before it or overwrites something. -/
  contiguous : (entriesOf segments).IsChain fun a b => b.index ≤ a.index + 1
  terms : (entriesOf segments).Pairwise fun a b => a.opId.term ≤ b.opId.term
  /-- What an entry says is committed is in the log then, and stays there. -/
  committed : ∀ pre e post, entriesOf segments = pre ++ e :: post →
    Names (pre ++ [e]) post e.replicate.committedOpId
  /-- What a segment says is committed is in the log then, and stays there. -/
  segmentCommitted : ∀ pre segment post, segments = pre ++ segment :: post →
    Names (entriesOf (pre ++ [segment])) (entriesOf post) segment.committedOpId

/-- The greatest of some ids. -/
def maxId (ids : List OpId) : OpId := ids.foldl max .min0

/-- The last operation that is known to be committed: from the databases, the entries or the
segments. -/
def committedId (flushedOpIds : DocDbOpIds) (segments : List LogSegment) : OpId :=
  maxId ([flushedOpIds.regular, flushedOpIds.intents] ++
    (entriesOf segments).map (·.replicate.committedOpId) ++ segments.map (·.committedOpId))

/-- How an entry is replayed, if it is. -/
def selected (storedOpIds : DocDbOpIds) (e : Entry) : Option (Replicate × Bool) :=
  let decision := replayDecision storedOpIds e.replicate
  if decision.shouldReplay then some (e.replicate, decision.alreadyAppliedToRegularDb) else none

/-- The operation has something to do with intents. -/
def Entry.UsesIntents (e : Entry) : Prop :=
  writeOpHasTransaction e.replicate = true ∨
    e.replicate.opType = .updateTransactionOp ∧ e.replicate.transactionState = some .applying

/-! ## Ids -/

section Ids

variable {ids : List OpId} {id : OpId}

/-- The largest of the ids is bounded if all of them are. -/
lemma foldl_max_le {a b : OpId} : ids.foldl max a ≤ b ↔ a ≤ b ∧ ∀ id ∈ ids, id ≤ b := by
  induction ids generalizing a with
  | nil => simp
  | cons id ids ih =>
    rw [foldl_cons, ih, max_le_iff, forall_mem_cons, and_assoc]

lemma min0_le (id : OpId) : OpId.min0 ≤ id := by
  rw [OpId.le_def]
  simp only [OpId.min0_term, OpId.min0_index]
  omega

/-- The same from the least id on. -/
lemma maxId_le {b : OpId} : maxId ids ≤ b ↔ ∀ id ∈ ids, id ≤ b := by
  rw [maxId, foldl_max_le]
  exact and_iff_right (min0_le b)

lemma le_maxId (h : id ∈ ids) : id ≤ maxId ids := maxId_le.1 le_rfl id h

/-- An entry has an id above the least one. -/
lemma min0_lt {e : Entry} (h : 1 ≤ e.index) : OpId.min0 < e.opId := by
  rw [OpId.lt_def]
  simp only [Entry.index, OpId.min0_term, OpId.min0_index] at h ⊢
  omega

end Ids

/-! ## The order of the surviving entries -/

section Order

variable {wal : List Entry} {x y : Entry}

/-- Entries in the order of the log, the later one with the higher index. -/
lemma opId_lt (hterm : x.opId.term ≤ y.opId.term) (hidx : x.index < y.index) : x.opId < y.opId := by
  rw [OpId.lt_def]
  unfold Entry.index at hidx
  omega

variable (hterms : wal.Pairwise fun a b => a.opId.term ≤ b.opId.term)

include hterms

/-- The surviving entries are in the order of their ids. -/
lemma surviving_pairwise : (surviving wal).Pairwise fun a b => a.opId < b.opId := by
  have hsub := hterms.sublist (survivors_sublist Entry.index wal)
  exact (hsub.and (survivors_pairwise Entry.index wal)).imp fun h => opId_lt h.1 h.2

/-- Among the surviving entries, ids compare as indexes do. -/
lemma opId_lt_iff (hx : x ∈ surviving wal) (hy : y ∈ surviving wal) :
    x.opId < y.opId ↔ x.index < y.index := by
  have hboth := (surviving_pairwise hterms).and (survivors_pairwise Entry.index wal)
  rcases mem_trichotomy hboth hx hy with rfl | ⟨hid, hidx⟩ | ⟨hid, hidx⟩
  · simp
  · exact iff_of_true hid hidx
  · exact iff_of_false hid.asymm hidx.asymm

/-- Surviving entries are in the order of their indices. -/
lemma opId_le_iff (hx : x ∈ surviving wal) (hy : y ∈ surviving wal) :
    x.opId ≤ y.opId ↔ x.index ≤ y.index := by
  rw [← not_lt, opId_lt_iff hterms hy hx, not_lt]

end Order

/-! ## Committed ids -/

section Names

variable {before after : List Entry} {e : Entry} {id id' : OpId}

/-- The larger of two ids that name a place. -/
lemma Names.max (h : Names before after id) (h' : Names before after id') :
    Names before after (max id id') := by
  rcases le_total id id' with hle | hle
  · rwa [max_eq_right hle]
  · rwa [max_eq_left hle]

/-- The largest of several ids that name a place. -/
lemma Names.foldl_max {ids : List OpId} (h : Names before after id)
    (hids : ∀ id ∈ ids, Names before after id) : Names before after (ids.foldl Max.max id) := by
  induction ids generalizing id with
  | nil => exact h
  | cons id' ids ih => exact ih (h.max (hids id' (by simp))) fun id hid => hids id (.tail _ hid)

/-- One more entry is written. -/
lemma Names.step (h : Names before (e :: after) id) : Names (before ++ [e]) after id := by
  refine h.imp_right fun ⟨x, hx, hid, haft⟩ => ⟨x, ?_, hid, fun y hy => haft y (.tail _ hy)⟩
  refine mem_survivors_append.2 (.inl ⟨hx, ?_⟩)
  simpa using haft e (by simp)

/-- More entries are written. -/
lemma Names.append (h : Names before after id) : Names (before ++ after) [] id := by
  induction after generalizing before with
  | nil => simpa using h
  | cons e after ih => simpa using ih h.step

/-- What is not above a committed id is below everything that is written later. -/
lemma Names.lt_of_le (h : Names before after id)
    (hterms : before.Pairwise fun a b => a.opId.term ≤ b.opId.term) {y z : Entry}
    (hpos : 1 ≤ y.index) (hy : y ∈ surviving before) (hle : y.opId ≤ id) (hz : z ∈ after) :
    y.index < z.index := by
  rcases h with rfl | ⟨x, hx, rfl, haft⟩
  · exact ((min0_lt hpos).not_ge hle).elim
  · exact ((opId_le_iff hterms hy hx).1 hle).trans_lt (haft z hz)

/-- A new entry is above what is committed. -/
lemma Names.lt_new (h : Names before (e :: after) id) (hpos : 1 ≤ e.index)
    (hterms : ∀ x ∈ before, x.opId.term ≤ e.opId.term) : id < e.opId := by
  rcases h with rfl | ⟨x, hx, rfl, haft⟩
  · exact min0_lt hpos
  · exact opId_lt (hterms x ((survivors_sublist _ _).subset hx)) (haft e (by simp))

/-- Against a committed id, the surviving entries compare as their indexes do. -/
lemma Names.le_iff {wal : List Entry} (h : Names wal [] id)
    (hterms : wal.Pairwise fun a b => a.opId.term ≤ b.opId.term) {y : Entry} (hpos : 1 ≤ y.index)
    (hy : y ∈ surviving wal) : y.opId ≤ id ↔ y.index ≤ id.index := by
  rcases h with rfl | ⟨x, hx, rfl, -⟩
  · refine iff_of_false (min0_lt hpos).not_ge ?_
    simp only [OpId.min0_index]
    omega
  · exact opId_le_iff hterms hy hx

/-- Two committed ids in order have their indexes in order. -/
lemma Names.index_le {wal : List Entry} (h : Names wal [] id)
    (hterms : wal.Pairwise fun a b => a.opId.term ≤ b.opId.term) (hpos : ∀ e ∈ wal, 1 ≤ e.index)
    (h' : Names wal [] id') (hle : id' ≤ id) : id'.index ≤ id.index := by
  rcases h' with rfl | ⟨x, hx, rfl, -⟩
  · exact Nat.zero_le _
  · exact (h.le_iff hterms (hpos x ((survivors_sublist _ _).subset hx)) hx).1 hle

end Names

/-! ## Applying what is committed -/

namespace ReplayState

variable {play : PlayRequest}

/-- The committed id only goes up. -/
lemma updateCommittedOpId_eq (s : ReplayState) (id : OpId) :
    s.updateCommittedOpId id = { s with committedOpId := max s.committedOpId id } := by
  unfold updateCommittedOpId
  split_ifs with h
  · rw [max_eq_right h.le]
  · rw [max_eq_left (not_lt.1 h)]

/-- It goes up to what the stores have flushed. -/
lemma updateCommittedFromStored_eq (s : ReplayState) :
    s.updateCommittedFromStored =
      { s with
        committedOpId :=
          max (max s.committedOpId s.storedOpIds.regular) s.storedOpIds.intents } := by
  have hupd : s.updateCommittedFromStored =
      (s.updateCommittedOpId s.storedOpIds.regular).updateCommittedOpId s.storedOpIds.intents := by
    unfold updateCommittedFromStored updateCommittedOpId
    dsimp only
    split_ifs <;> rfl
  rw [hupd, updateCommittedOpId_eq, updateCommittedOpId_eq]

/-- What the loop over the pending entries changes. -/
structure Applied (s s' : ReplayState) (applied rest : List Entry) : Prop where
  pending_eq : s'.pendingReplicates = rest
  replayed_eq : s'.replayed = s.replayed ++ applied.filterMap (selected s.storedOpIds)
  committed_eq : s'.committedOpId = s.committedOpId
  stored_eq : s'.storedOpIds = s.storedOpIds
  prev_eq : s'.prevOpId = s.prevOpId

/-- A committed entry is replayed, if it can be. -/
lemma maybeReplayCommittedEntry_spec {s : ReplayState} {e : Entry}
    (hplay : ∀ flag, play e.replicate flag = true) :
    ∃ s', s.maybeReplayCommittedEntry play e = .ok s' ∧ Applied s s' [e] s.pendingReplicates := by
  have hretry : Applied s (s.handleRetryableRequest e) [] s.pendingReplicates := by
    unfold handleRetryableRequest
    split_ifs <;> exact ⟨rfl, by simp, rfl, rfl, rfl⟩
  unfold maybeReplayCommittedEntry
  by_cases hdec : (replayDecision s.storedOpIds e.replicate).shouldReplay = true
  · rw [if_pos hdec, if_pos (hplay _)]
    refine ⟨_, rfl, { hretry with replayed_eq := ?_ }⟩
    simp [selected, hdec, hretry.replayed_eq]
  · rw [if_neg hdec]
    refine ⟨_, rfl, { hretry with replayed_eq := ?_ }⟩
    simp [selected, hdec, hretry.replayed_eq]

/-- The loop replays the pending entries up to the committed id. -/
lemma applyCommittedLoop_spec {l : List Entry} {s : ReplayState}
    (hplay : ∀ e ∈ l, e.opId ≤ s.committedOpId → ∀ flag, play e.replicate flag = true) :
    ∃ s', applyCommittedLoop play l s = .ok s' ∧
      Applied s s' (l.takeWhile fun e => e.opId ≤ s.committedOpId)
        (l.dropWhile fun e => e.opId ≤ s.committedOpId) := by
  induction l generalizing s with
  | nil => exact ⟨_, rfl, rfl, by simp, rfl, rfl, rfl⟩
  | cons e l ih =>
    by_cases hcan : e.opId ≤ s.committedOpId
    · -- committed: it is played if some database lacks it, and dropped from the pending ones
      obtain ⟨s₁, hs₁, happ₁⟩ :=
        maybeReplayCommittedEntry_spec (hplay e (by simp) hcan)
      obtain ⟨s₂, hs₂, happ₂⟩ :=
        ih (s := { s₁ with numEntriesAppliedToRocksdb := s₁.numEntriesAppliedToRocksdb + 1 })
        (fun e' he' hle => hplay e' (.tail _ he') (happ₁.committed_eq ▸ hle))
      refine ⟨s₂, ?_, ?_⟩
      · have hcan' : s.canApply e = true := decide_eq_true hcan
        rw [applyCommittedLoop, if_pos hcan', hs₁, Except.ok_bind, hs₂]
      · have hcomm : s₁.committedOpId = s.committedOpId := happ₁.committed_eq
        rw [takeWhile_cons_of_pos (by simpa using hcan),
          dropWhile_cons_of_pos (by simpa using hcan)]
        refine ⟨?_, ?_, happ₂.committed_eq.trans hcomm, happ₂.stored_eq.trans happ₁.stored_eq,
          happ₂.prev_eq.trans happ₁.prev_eq⟩
        · simpa [hcomm] using happ₂.pending_eq
        · rw [happ₂.replayed_eq, happ₁.replayed_eq]
          simp [hcomm, happ₁.stored_eq, filterMap_cons]
          cases selected s.storedOpIds e <;> simp
    · -- the first one that is not committed ends the loop
      have hcan' : ¬s.canApply e = true := fun h => hcan (of_decide_eq_true h)
      rw [applyCommittedLoop, if_neg hcan', takeWhile_cons_of_neg (by simpa using hcan),
        dropWhile_cons_of_neg (by simpa using hcan)]
      exact ⟨_, rfl, rfl, by simp, rfl, rfl, rfl⟩

end ReplayState

/-! ## Reading the log -/

/-- After the entries `done` were read, with `skipped` before them and `rest` after: what is pending
and what was replayed are the surviving ones of `done`, after and up to the committed id. -/
structure Replayed (stored : DocDbOpIds) (skipped done rest : List Entry) (s : ReplayState) :
    Prop where
  stored_eq : s.storedOpIds = stored
  pending_eq : s.pendingReplicates = (surviving done).filter fun e => s.committedOpId < e.opId
  replayed_eq : s.replayed =
    ((surviving done).filter fun e => e.opId ≤ s.committedOpId).filterMap (selected stored)
  prev_eq : s.prevOpId = (done.getLast?.map Entry.opId).getD .min0
  names : Names (skipped ++ done) rest s.committedOpId

section Reading

variable {play : PlayRequest} {stored : DocDbOpIds} {wal skipped done rest : List Entry}
  {e : Entry} {s : ReplayState} {id : OpId}
  (hpos : ∀ e ∈ wal, 1 ≤ e.index)
  (hterms : wal.Pairwise fun a b => a.opId.term ≤ b.opId.term)
  (hplay : ∀ e ∈ surviving wal, ∀ flag, play e.replicate flag = true)

include hpos hterms

/-- One more entry is read. -/
lemma Replayed.insert (h : Replayed stored skipped done (e :: rest) s)
    (hwal : wal = skipped ++ done ++ e :: rest) :
    Replayed stored skipped (done ++ [e]) rest
      { s with
        prevOpId := e.opId
        pendingReplicates := (s.pendingReplicates.filter fun x => x.index < e.index) ++ [e] } := by
  subst hwal
  obtain ⟨hterms₁, -, hcross⟩ := pairwise_append.1 hterms
  have hlt : s.committedOpId < e.opId :=
    h.names.lt_new (hpos e (by simp)) fun x hx => hcross x hx e (by simp)
  have hcat : surviving (done ++ [e]) =
      ((surviving done).filter fun x => x.index < e.index) ++ [e] := survivors_concat _ done e
  refine ⟨h.stored_eq, ?_, ?_, by simp, ?_⟩
  · rw [hcat, h.pending_eq]
    simp [hlt, Bool.and_comm]
  · -- what is committed stays, and the new entry is not yet
    rw [h.replayed_eq, hcat, filter_append, filter_filter]
    have hnil : [e].filter fun e => e.opId ≤ s.committedOpId = [] := by simpa using hlt
    rw [hnil, append_nil]
    refine congrArg _ (filter_congr fun x hx => ?_)
    have hx' : x ∈ surviving (skipped ++ done) := mem_survivors_append.2 (.inr hx)
    have hxpos : 1 ≤ x.index :=
      hpos x (mem_append_left _ ((survivors_sublist _ _).subset hx'))
    have himp : x.opId ≤ s.committedOpId → x.index < e.index := fun hle =>
      h.names.lt_of_le hterms₁ hxpos hx' hle (by simp)
    simpa using himp
  · rw [← append_assoc]
    exact h.names.step

include hplay

/-- More is known to be committed. -/
lemma Replayed.commit (h : Replayed stored skipped done rest s)
    (hwal : wal = skipped ++ done ++ rest) (hid : Names (skipped ++ done) rest id) :
    ∃ s', { s with committedOpId := max s.committedOpId id }.applyCommittedPendingReplicates play =
      .ok s' ∧
      Replayed stored skipped done rest s' ∧ s'.committedOpId = max s.committedOpId id := by
  subst hwal
  have hnames := h.names.max hid
  have hle : s.committedOpId ≤ max s.committedOpId id := le_max_left _ _
  generalize max s.committedOpId id = id' at hnames hle ⊢
  have hterms₁ : (skipped ++ done).Pairwise fun a b => a.opId.term ≤ b.opId.term :=
    (pairwise_append.1 hterms).1
  have hsort := surviving_pairwise (pairwise_append.1 hterms₁).2.1
  -- what is applied is never overwritten
  have hsurvives : ∀ e ∈ s.pendingReplicates, e.opId ≤ id' →
      e ∈ surviving (skipped ++ done ++ rest) := by
    intro e he hle
    rw [h.pending_eq] at he
    have hdone : e ∈ surviving (skipped ++ done) :=
      mem_survivors_append.2 (.inr (mem_of_mem_filter he))
    have hmem := (survivors_sublist _ _).subset hdone
    refine mem_survivors_append.2 (.inl ⟨hdone, fun z hz => ?_⟩)
    exact hnames.lt_of_le hterms₁ (hpos e (mem_append_left _ hmem)) hdone hle hz
  obtain ⟨s', hs', happ⟩ := ReplayState.applyCommittedLoop_spec
    (s := { s with committedOpId := id' }) fun e he hle => hplay e (hsurvives e he hle)
  refine ⟨s', hs', ⟨happ.stored_eq.trans h.stored_eq, ?_, ?_, happ.prev_eq.trans h.prev_eq, ?_⟩,
    happ.committed_eq⟩
  · rw [happ.pending_eq, happ.committed_eq, h.pending_eq, dropWhile_eq_filter (hsort.filter _),
      filter_filter]
    refine filter_congr fun e _ => ?_
    simpa using hle.trans_lt
  · rw [happ.replayed_eq, happ.committed_eq, h.pending_eq, takeWhile_eq_filter (hsort.filter _),
      h.replayed_eq, h.stored_eq, ← filterMap_append, filter_le_append hsort hle]
  · rw [happ.committed_eq]
    exact hnames

/-- `HandleReplicateMessage` for the next entry. -/
lemma Replayed.handle (h : Replayed stored skipped done (e :: rest) s)
    (hwal : wal = skipped ++ done ++ e :: rest)
    (hchain : wal.IsChain fun a b => b.index ≤ a.index + 1)
    (hcomm : Names (skipped ++ done ++ [e]) rest e.replicate.committedOpId) :
    ∃ s', s.handleReplicateMessage play e = .ok s' ∧ Replayed stored skipped (done ++ [e]) rest s' ∧
      s'.committedOpId = max s.committedOpId e.replicate.committedOpId := by
  -- the indexes of the log leave no gap
  have hval : ReplayState.isValidSequence s.prevOpId e.replicate.id = true := by
    rw [h.prev_eq]
    rcases eq_nil_or_concat done with rfl | ⟨init, last, rfl⟩
    · rfl
    have hnext : e.index ≤ last.index + 1 := by
      rw [hwal] at hchain
      exact (isChain_append.1 hchain).2.2 last (by simp) e (by simp)
    simp only [Entry.index, Entry.opId] at hnext
    simp only [concat_eq_append, getLast?_append, getLast?_singleton,
      Option.some_or, Option.map_some, Option.getD_some, ReplayState.isValidSequence, Entry.opId]
    split_ifs with h0 hskip
    · rfl
    · omega
    · rfl
  -- the entry is noted as pending, and then what it says is committed
  have hins := h.insert hpos hterms hwal
  have hid : Names (skipped ++ (done ++ [e])) rest e.replicate.committedOpId := by
    rwa [← append_assoc]
  obtain ⟨s', hs', hrep, hcom⟩ := hins.commit hpos hterms hplay (by rw [hwal]; simp) hid
  refine ⟨s', ?_, hrep, hcom⟩
  unfold ReplayState.handleReplicateMessage ReplayState.checkSequentialReplicateId
  rw [if_pos hval, Except.ok_bind]
  dsimp only
  rw [ReplayState.updateCommittedOpId_eq]
  exact hs'

/-- All entries are read. -/
lemma Replayed.run (hchain : wal.IsChain fun a b => b.index ≤ a.index + 1)
    (hcom : ∀ pre e post, wal = pre ++ e :: post →
      Names (pre ++ [e]) post e.replicate.committedOpId)
    (h : Replayed stored skipped done rest s) (hwal : wal = skipped ++ done ++ rest) :
    ∃ s', rest.foldlM (ReplayState.handleReplicateMessage play) s = .ok s' ∧
      Replayed stored skipped (done ++ rest) [] s' ∧
        s'.committedOpId = (rest.map (·.replicate.committedOpId)).foldl max s.committedOpId := by
  induction rest generalizing done s with
  | nil => exact ⟨s, rfl, by simpa using h, rfl⟩
  | cons e rest ih =>
    obtain ⟨s₁, hs₁, hrep₁, hcom₁⟩ :=
      h.handle hpos hterms hplay hwal hchain (hcom _ _ _ hwal)
    obtain ⟨s', hs', hrep', hcom'⟩ := ih hrep₁ (by rw [hwal]; simp)
    refine ⟨s', ?_, by simpa using hrep', ?_⟩
    · rw [foldlM_cons, hs₁, Except.ok_bind, hs']
    · rw [hcom', hcom₁]
      rfl

/-- The committed op id of the segments, after all of them were read. -/
lemma Replayed.applyLastCommitted (h : Replayed stored skipped done [] s)
    (hwal : wal = skipped ++ done) (hid : Names wal [] id)
    (hskip : ∀ y ∈ surviving skipped, (∀ x ∈ done, y.index < x.index) → y.opId ≤ s.committedOpId) :
    ∃ s', applyLastCommitted play id s = .ok s' ∧ Replayed stored skipped done [] s' ∧
      s'.committedOpId = max s.committedOpId id := by
  subst hwal
  have hle_iff : ∀ z ∈ surviving (skipped ++ done),
      (z.opId ≤ s.committedOpId ↔ z.index ≤ s.committedOpId.index) := fun z hz =>
    h.names.le_iff hterms (hpos z ((survivors_sublist _ _).subset hz)) hz
  unfold TabletBootstrap.applyLastCommitted
  split_ifs with hlt
  · obtain ⟨z, hz, rfl, -⟩ : ∃ z ∈ surviving (skipped ++ done), z.opId = id ∧
        ∀ y ∈ [], z.index < Entry.index y := by
      refine hid.resolve_left ?_
      rintro rfl
      simp at hlt
    have hnot : ¬z.opId ≤ s.committedOpId := fun hle => hlt.not_ge ((hle_iff z hz).1 hle)
    -- it is among the entries that were read, and not applied yet
    have hz' : z ∈ surviving done := by
      rcases mem_survivors_append.1 hz with ⟨hz, hbel⟩ | hz
      · exact (hnot (hskip z hz hbel)).elim
      · exact hz
    have hpend : z ∈ s.pendingReplicates := by
      rw [h.pending_eq]
      exact mem_filter.2 ⟨hz', by simpa using hnot⟩
    obtain ⟨found, hfnd⟩ : ∃ found, (s.pendingReplicates.find? fun e =>
        e.replicate.id.index = z.opId.index) = some found :=
      Option.isSome_iff_exists.1 (find?_isSome.2 ⟨z, hpend, decide_eq_true rfl⟩)
    obtain rfl : found = z := by
      have hmem := mem_of_find?_eq_some hfnd
      rw [h.pending_eq] at hmem
      have hidx := find?_some hfnd
      exact eq_of_idx_eq (mem_of_mem_filter hmem) hz' (of_decide_eq_true hidx)
    rw [hfnd]
    dsimp only
    rw [if_pos (show found.opId.term = found.replicate.id.term from rfl),
      ReplayState.updateCommittedOpId_eq]
    exact h.commit hpos hterms hplay (by simp) hid
  · refine ⟨s, rfl, h, (max_eq_left ?_).symm⟩
    rcases hid with rfl | ⟨z, hz, rfl, -⟩
    · exact min0_le _
    · exact (hle_iff z hz).2 (not_lt.1 hlt)

end Reading

/-! ## Where replay starts -/

/-- Entries of segments, one after the other. -/
lemma entriesOf_append (a b : List LogSegment) :
    entriesOf (a ++ b) = entriesOf a ++ entriesOf b := by
  simp [entriesOf]

lemma entriesOf_cons (segment : LogSegment) (segments : List LogSegment) :
    entriesOf (segment :: segments) = segment.entries ++ entriesOf segments := by
  simp [entriesOf]

/-- Replay starts at a segment whose first entry is not above the lowest id, or at the first one. -/
lemma skipFlushedEntriesLoop_spec (lowest : OpId) (retain : ℤ) (before after : List LogSegment)
    (replayFrom : Option ℤ) :
    ∃ skipped, before.reverse ++ after = skipped ++
      skipFlushedEntriesLoop lowest retain before after replayFrom ∧
      (skipped = [] ∨ ∃ first,
        (entriesOf (skipFlushedEntriesLoop lowest retain before after replayFrom)).head? =
          some first ∧
          first.opId ≤ lowest) := by
  induction before generalizing after replayFrom with
  | nil => exact ⟨[], rfl, .inl rfl⟩
  | cons segment before ih =>
    rw [skipFlushedEntriesLoop]
    split
    · simpa using ih (segment :: after) replayFrom
    rename_i first rest hentries
    dsimp only
    split_ifs with hcond
    · refine ⟨before.reverse, by simp, .inr ⟨first, ?_, hcond.1⟩⟩
      simp [entriesOf_cons, hentries]
    · simpa using ih (segment :: after) (some (replayFrom.getD (first.entryTime - retain)))

/-- Only segments that are flushed are skipped. -/
lemma skipFlushedEntries_spec (lowest : OpId) (retain : ℤ) (segments : List LogSegment) :
    ∃ skipped, segments = skipped ++ skipFlushedEntries lowest retain segments ∧
      (skipped = [] ∨ ∃ first,
        (entriesOf (skipFlushedEntries lowest retain segments)).head? = some first ∧
          first.opId ≤ lowest) := by
  have h := skipFlushedEntriesLoop_spec lowest retain segments.reverse [] none
  simpa [skipFlushedEntries] using h

/-- The surviving entries before the start are below the lowest id. -/
lemma skipped_lt {skipped toReplay : List Entry} {first : Entry} {lowest : OpId}
    (hpos : ∀ e ∈ skipped ++ toReplay, 1 ≤ e.index)
    (hterms : (skipped ++ toReplay).Pairwise fun a b => a.opId.term ≤ b.opId.term)
    (hlowest : Names (skipped ++ toReplay) [] lowest) (hfirst : toReplay.head? = some first)
    (hle : first.opId ≤ lowest) {y : Entry} (hy : y ∈ surviving skipped)
    (hbel : ∀ x ∈ toReplay, y.index < x.index) : y.opId < lowest ∧ y.index < lowest.index := by
  have hmem : first ∈ toReplay := mem_of_mem_head? (by simpa using hfirst)
  obtain ⟨-, -, hcross⟩ := pairwise_append.1 hterms
  have hlt : ∀ z ∈ surviving skipped, ∀ x ∈ toReplay, z.index < x.index → z.opId < x.opId :=
    fun z hz x hx hidx => opId_lt (hcross z ((survivors_sublist _ _).subset hz) x hx) hidx
  rcases hlowest with rfl | ⟨x, hx, rfl, -⟩
  · exact ((min0_lt (hpos first (mem_append_right _ hmem))).not_ge hle).elim
  · -- the entry with the lowest id is not before the start: the first entry would be above it
    rcases mem_survivors_append.1 hx with ⟨hx, hxbelow⟩ | hx
    · exact ((hlt x hx first hmem (hxbelow first hmem)).not_ge hle).elim
    · have hxmem := (survivors_sublist _ _).subset hx
      exact ⟨hlt y hy x hxmem (hbel x hxmem), hbel x hxmem⟩

/-- What was known to be committed before the start is not above the lowest id. -/
lemma Names.le_lowest {before between toReplay : List Entry} {id lowest : OpId}
    (h : Names before (between ++ toReplay) id)
    (hskip : ∀ y ∈ surviving (before ++ between), (∀ x ∈ toReplay, y.index < x.index) →
      y.opId < lowest) :
    id ≤ lowest := by
  rcases h with rfl | ⟨y, hy, rfl, haft⟩
  · exact min0_le _
  · refine (hskip y (mem_survivors_append.2 (.inl ⟨hy, fun x hx => ?_⟩)) fun x hx => ?_).le
    · exact haft x (mem_append_left _ hx)
    · exact haft x (mem_append_right _ hx)

/-- Segments are read one by one. -/
lemma foldlM_playSegment {play : PlayRequest} {segments : List LogSegment} {id : OpId}
    {s s' : ReplayState}
    (h : (entriesOf segments).foldlM (ReplayState.handleReplicateMessage play) s = .ok s') :
    segments.foldlM (playSegment play) (id, s) =
      .ok ((segments.map (·.committedOpId)).foldl max id, s') := by
  induction segments generalizing id s with
  | nil =>
    obtain rfl : s = s' := by simpa [entriesOf, pure, Except.pure] using h
    rfl
  | cons segment segments ih =>
    rw [entriesOf_cons, foldlM_append] at h
    obtain ⟨s₁, hs₁, hrest⟩ := Except.bind_eq_ok.1 h
    rw [foldlM_cons, playSegment, hs₁]
    exact ih hrest

/-! ## The result -/

section Result

variable {play : PlayRequest} {options : Options} {segments skipped toReplay : List LogSegment}
  {lowest : OpId} {flushedOpIds : DocDbOpIds}

/-- What is known from the part of the log that is read is all that is known. -/
lemma committedId_eq (hw : Written segments) (hseg : segments = skipped ++ toReplay)
    (hlowest : lowest ≤ flushedOpIds.regular) (hskip : ∀ y ∈ surviving (entriesOf skipped),
      (∀ x ∈ entriesOf toReplay, y.index < x.index) → y.opId < lowest) :
    committedId flushedOpIds segments =
      max (max (maxId ((entriesOf toReplay).map (·.replicate.committedOpId)))
        (max flushedOpIds.regular flushedOpIds.intents)) (maxId
          (toReplay.map (·.committedOpId))) := by
  have hwal : entriesOf segments = entriesOf skipped ++ entriesOf toReplay := by
    rw [hseg, entriesOf_append]
  -- what the skipped entries and segments say is not above the lowest id
  have hentry : ∀ e ∈ entriesOf skipped, e.replicate.committedOpId ≤ lowest := by
    intro e he
    obtain ⟨pre, between, hspl⟩ := append_of_mem he
    have hnames : Names (pre ++ [e]) (between ++ entriesOf toReplay) e.replicate.committedOpId :=
      hw.committed pre e _ (by rw [hwal, hspl]; simp)
    exact hnames.le_lowest (by simpa [hspl] using hskip)
  have hsegment : ∀ segment ∈ skipped, segment.committedOpId ≤ lowest := by
    intro segment hmem
    obtain ⟨pre, between, rfl⟩ := append_of_mem hmem
    have hnames := hw.segmentCommitted pre segment (between ++ toReplay) (by rw [hseg]; simp)
    rw [entriesOf_append between] at hnames
    refine hnames.le_lowest ?_
    rw [← entriesOf_append]
    simpa using hskip
  -- both sides have the same upper bounds
  refine eq_of_forall_ge_iff fun b => ?_
  have hb (h : flushedOpIds.regular ≤ b) :
      (∀ e ∈ entriesOf skipped, e.replicate.committedOpId ≤ b) ∧
      ∀ segment ∈ skipped, segment.committedOpId ≤ b :=
    ⟨fun e he => (hentry e he).trans (hlowest.trans h),
      fun segment hmem => (hsegment segment hmem).trans (hlowest.trans h)⟩
  rw [committedId, hwal, hseg]
  simp only [maxId_le, max_le_iff, forall_mem_append, forall_mem_cons, forall_mem_map]
  tauto

/-- The state after everything was read and applied. -/
lemma replayed_toReplay (hw : Written segments) (hseg : segments = skipped ++ toReplay)
    (hreg : Names (entriesOf segments) [] options.flushedOpIds.regular)
    (hints : Names (entriesOf segments) [] options.flushedOpIds.intents)
    (hplay : ∀ e ∈ surviving (entriesOf segments), ∀ flag, play e.replicate flag = true)
    (hlowest : lowest ≤ options.flushedOpIds.regular)
    (hskip : ∀ y ∈ surviving (entriesOf skipped), (∀ x ∈ entriesOf toReplay, y.index < x.index) →
      y.opId < lowest) :
    ∃ last s₁ s₂ s₃, toReplay.foldlM (playSegment play) (.min0,
        { storedOpIds := options.flushedOpIds
          maxCommittedHybridTime := options.maxPersistentHybridTime }) = .ok (last, s₁) ∧
      s₁.updateCommittedFromStored.applyCommittedPendingReplicates play = .ok s₂ ∧
      applyLastCommitted play last s₂ = .ok s₃ ∧
      Replayed options.flushedOpIds (entriesOf skipped) (entriesOf toReplay) [] s₃ ∧
      s₃.committedOpId = committedId options.flushedOpIds segments := by
  have hwal : entriesOf segments = entriesOf skipped ++ entriesOf toReplay := by
    rw [hseg, entriesOf_append]
  have hinit : Replayed options.flushedOpIds (entriesOf skipped) [] (entriesOf toReplay)
      { storedOpIds := options.flushedOpIds
        maxCommittedHybridTime := options.maxPersistentHybridTime } :=
    ⟨rfl, rfl, rfl, rfl, .inl rfl⟩
  obtain ⟨s₁, hs₁, hrep₁, hcom₁⟩ := hinit.run hw.index_pos hw.terms hplay hw.contiguous hw.committed
    (by simpa using hwal)
  rw [hwal] at hreg hints
  obtain ⟨s₂, hs₂, hrep₂, hcom₂⟩ :=
    hrep₁.commit hw.index_pos hw.terms hplay (by simpa using hwal) (hreg.max hints)
  -- the greatest committed id of the segments names an entry, too
  have hlast : Names (entriesOf segments) [] (maxId (toReplay.map (·.committedOpId))) := by
    refine Names.foldl_max (.inl rfl) fun id hid => ?_
    obtain ⟨segment, hmem, rfl⟩ := mem_map.1 hid
    obtain ⟨pre, post, hspl⟩ := append_of_mem hmem
    have h := (hw.segmentCommitted (skipped ++ pre) segment post (by rw [hseg, hspl]; simp)).append
    rw [← entriesOf_append] at h
    simpa [hseg, hspl] using h
  obtain ⟨s₃, hs₃, hrep₃, hcom₃⟩ :=
    hrep₂.applyLastCommitted hw.index_pos hw.terms hplay hwal hlast (by
      intro y hy hbel
      rw [hcom₂]
      exact le_max_of_le_right (le_max_of_le_left ((hskip y hy hbel).le.trans hlowest)))
  refine ⟨_, s₁, s₂, s₃, foldlM_playSegment hs₁, ?_, hs₃, hrep₃, ?_⟩
  · rw [← hrep₁.stored_eq, ← max_assoc] at hs₂
    rw [ReplayState.updateCommittedFromStored_eq]
    exact hs₂
  · rw [hcom₃, hcom₂, hcom₁, committedId_eq hw hseg hlowest hskip]
    rfl

/-- Nothing that is flushed to the databases is selected. -/
lemma selected_eq_none {hasIntentsDb : Bool} {y : Entry}
    (hle : flushedOpIds.intents ≤ flushedOpIds.regular)
    (hidx : flushedOpIds.intents.index ≤ flushedOpIds.regular.index)
    (huses : hasIntentsDb = false → ¬y.UsesIntents)
    (hy : y.index < (ReplayState.getLowestOpIdToReplay flushedOpIds hasIntentsDb).index) :
    selected flushedOpIds y = none := by
  have hnot : (replayDecision flushedOpIds y.replicate).shouldReplay = false := by
    unfold replayDecision shouldReplayOperation
    simp only [Entry.index, Entry.opId] at hy
    cases hasIntentsDb with
    | true =>
      simp only [ReplayState.getLowestOpIdToReplay, if_true, min_eq_right hle] at hy
      rw [if_pos (le_min (by omega) hy.le)]
    | false =>
      simp only [ReplayState.getLowestOpIdToReplay, Bool.false_eq_true, if_false] at hy
      have hnuses := huses rfl
      simp only [Entry.UsesIntents, not_or, not_and] at hnuses
      have hreg : ¬flushedOpIds.regular.index < y.replicate.id.index := by omega
      split_ifs with hmin hupd happlying hwrite
      · rfl
      · -- an applied transaction would use the intents
        cases hst : y.replicate.transactionState with
        | none => simp [hst] at happlying
        | some status =>
          simp only [hst, Option.getD_some] at happlying
          exact (hnuses.2 hupd (by rw [hst, happlying.1])).elim
      · simpa using hreg
      · simp [hnuses.1] at hwrite
      · simpa using hreg
  simp [selected, hnot]

/-- The last entry of the log is not below a committed one. -/
lemma Names.le_last {wal : List Entry} {id : OpId} (h : Names wal [] id)
    (hterms : wal.Pairwise fun a b => a.opId.term ≤ b.opId.term) :
    id.term ≤ ((wal.getLast?.map Entry.opId).getD .min0).term ∧
      id.index ≤ ((wal.getLast?.map Entry.opId).getD .min0).index := by
  rcases h with rfl | ⟨x, hx, rfl, -⟩
  · simp
  rcases eq_nil_or_concat wal with rfl | ⟨init, last, rfl⟩
  · simp [survivors] at hx
  rw [concat_eq_append] at *
  simp only [getLast?_append]
  rcases mem_survivors_append.1 hx with ⟨hx, hbel⟩ | hx
  · have hmem := (survivors_sublist _ _).subset hx
    exact ⟨(pairwise_append.1 hterms).2.2 x hmem last (by simp), (hbel last (by simp)).le⟩
  · obtain rfl : x = last := by simpa [survivors] using hx
    exact ⟨le_rfl, le_rfl⟩

/-- What is flushed makes no difference to what is replayed and handed over. -/
lemma filter_append_of_flushed {stored : DocDbOpIds} {flushed read : List Entry} {id : OpId}
    (hflu : ∀ y ∈ flushed, selected stored y = none ∧ y.index ≤ id.index)
    (hread : ∀ y ∈ read, (y.opId ≤ id ↔ y.index ≤ id.index)) :
    (read.filter fun e => e.opId ≤ id).filterMap (selected stored) =
        ((flushed ++ read).filter fun e => e.index ≤ id.index).filterMap (selected stored) ∧
      (read.filter fun e => id < e.opId) = (flushed ++ read).filter fun e =>
        id.index < e.index := by
  constructor
  · have hnil : (flushed.filter fun e => e.index ≤ id.index).filterMap (selected stored) = [] :=
      filterMap_eq_nil_iff.2 fun y hy => (hflu y (mem_of_mem_filter hy)).1
    rw [filter_append, filterMap_append, hnil]
    refine congrArg _ (filter_congr fun y hy => ?_)
    simp [hread y hy]
  · have hnil : flushed.filter fun e => id.index < e.index = [] :=
      filter_eq_nil_iff.2 fun y hy => by simpa using (hflu y hy).2
    rw [filter_append, hnil]
    refine filter_congr fun y hy => ?_
    have hlt : id < y.opId ↔ id.index < y.index := by rw [← not_le, hread y hy, not_le]
    exact decide_eq_decide.2 hlt

/-- Entries in the order of their indexes are replayed in that order. -/
lemma replayed_pairwise {stored : DocDbOpIds} {entries : List Entry}
    (h : entries.Pairwise fun a b => a.index < b.index) :
    ((entries.filterMap (selected stored)).map (·.1.id.index)).Pairwise (· < ·) := by
  have hselected : ∀ (e : Entry) r, selected stored e = some r → r.1.id.index = e.index := by
    intro e r hr
    simp only [selected] at hr
    split_ifs at hr
    cases hr
    rfl
  rw [pairwise_map, pairwise_filterMap]
  refine h.imp fun {a b} hlt r hr r' hr' => ?_
  rw [hselected a r hr, hselected b r' hr']
  exact hlt

/-- Replay starts somewhere, and if something comes before then at an entry that is not above the
lowest id. -/
lemma exists_start (options : Options) (segments : List LogSegment) :
    ∃ skipped toReplay, segments = skipped ++ toReplay ∧
      toReplay = (if options.skipFlushedEntries then
        skipFlushedEntries
          (ReplayState.getLowestOpIdToReplay options.flushedOpIds options.hasIntentsDb)
          options.retryableRequestTimeoutSecs segments
        else segments) ∧
      (skipped = [] ∨ ∃ first, (entriesOf toReplay).head? = some first ∧
        first.opId ≤ ReplayState.getLowestOpIdToReplay options.flushedOpIds
          options.hasIntentsDb) := by
  split_ifs
  · obtain ⟨skipped, hseg, hstart⟩ := skipFlushedEntries_spec
      (ReplayState.getLowestOpIdToReplay options.flushedOpIds options.hasIntentsDb)
      options.retryableRequestTimeoutSecs segments
    exact ⟨skipped, _, hseg, rfl, hstart⟩
  · exact ⟨[], segments, rfl, rfl, .inl rfl⟩

/-- Replay of the log is exact, with or without skipping segments that are flushed: it applies the
surviving operations up to the committed one that are selected as not flushed, in the order of their
indexes, and hands over the surviving ones after it. -/
theorem playSegments_exact (hw : Written segments)
    (hregular : Names (entriesOf segments) [] options.flushedOpIds.regular)
    (hintents : Names (entriesOf segments) [] options.flushedOpIds.intents)
    (hle : options.flushedOpIds.intents ≤ options.flushedOpIds.regular)
    (huses : options.hasIntentsDb = false → ∀ e ∈ entriesOf segments, ¬e.UsesIntents)
    (hplay : ∀ e ∈ surviving (entriesOf segments), ∀ flag, play e.replicate flag = true) :
    ∃ info, playSegments play options segments = .ok info ∧
      info.lastCommittedId = committedId options.flushedOpIds segments ∧
      info.replayed = ((surviving (entriesOf segments)).filter
        (fun e => e.index ≤ info.lastCommittedId.index)).filterMap (selected options.flushedOpIds) ∧
      (info.replayed.map (·.1.id.index)).Pairwise (· < ·) ∧
      info.orphanedReplicates = ((surviving (entriesOf segments)).filter
        (fun e => info.lastCommittedId.index < e.index)).map (·.replicate) := by
  obtain ⟨skipped, toReplay, hseg, htoReplay, hstart⟩ :=
    exists_start options segments
  have hwal : entriesOf segments = entriesOf skipped ++ entriesOf toReplay := by
    rw [hseg, entriesOf_append]
  have hpos := hw.index_pos
  have hterms := hw.terms
  set lowest := ReplayState.getLowestOpIdToReplay options.flushedOpIds options.hasIntentsDb
    with hlowest_def
  have hlowest_names : Names (entriesOf segments) [] lowest ∧
      lowest ≤ options.flushedOpIds.regular := by
    rw [hlowest_def, ReplayState.getLowestOpIdToReplay]
    split_ifs
    · rw [min_eq_right hle]
      exact ⟨hintents, hle⟩
    · exact ⟨hregular, le_rfl⟩
  have hskip : ∀ y ∈ surviving (entriesOf skipped),
      (∀ x ∈ entriesOf toReplay, y.index < x.index) → y.opId < lowest ∧ y.index < lowest.index := by
    intro y hy hbel
    rcases hstart with rfl | ⟨first, hfirst, hfirst_le⟩
    · simp [entriesOf, survivors] at hy
    · rw [hwal] at hpos hterms hlowest_names
      exact skipped_lt hpos hterms hlowest_names.1 hfirst hfirst_le hy hbel
  obtain ⟨last, s₁, s₂, s₃, hs₁, hs₂, hs₃, hrep, hcom⟩ := replayed_toReplay hw hseg hregular
    hintents hplay hlowest_names.2 fun y hy hbel => (hskip y hy hbel).1
  have hnames : Names (entriesOf segments) [] s₃.committedOpId := hwal ▸ hrep.names
  have hle_iff : ∀ y ∈ surviving (entriesOf segments),
      (y.opId ≤ s₃.committedOpId ↔ y.index ≤ s₃.committedOpId.index) := fun y hy =>
    hnames.le_iff hterms (hpos y ((survivors_sublist _ _).subset hy)) hy
  set flushed := (surviving (entriesOf skipped)).filter
    fun e => ∀ x ∈ entriesOf toReplay, e.index < x.index with hflushed_def
  have hspl : surviving (entriesOf segments) = flushed ++ surviving (entriesOf toReplay) := by
    rw [hwal]
    exact survivors_append Entry.index (entriesOf skipped) (entriesOf toReplay)
  -- the check of the last id
  have hprev : s₃.prevOpId = ((entriesOf segments).getLast?.map Entry.opId).getD .min0 := by
    rw [hrep.prev_eq, hwal, getLast?_append]
    rcases hstart with rfl | ⟨first, hfirst, -⟩
    · simp [entriesOf]
    · cases hlast : (entriesOf toReplay).getLast? with
      | none => simp [getLast?_eq_none_iff.1 hlast] at hfirst
      | some last => rfl
  have hchk : s₃.committedOpId.term ≤ s₃.prevOpId.term ∧
      s₃.committedOpId.index ≤ s₃.prevOpId.index := hprev ▸ hnames.le_last hterms
  -- what was skipped is neither replayed nor handed over
  have hflu : ∀ y ∈ flushed, selected options.flushedOpIds y = none ∧
      y.index ≤ s₃.committedOpId.index := by
    intro y hy
    have hmem : y ∈ surviving (entriesOf segments) := by
      rw [hspl]
      exact mem_append_left _ hy
    obtain ⟨hy, hbel⟩ := mem_filter.1 hy
    obtain ⟨hid, hidx⟩ := hskip y hy (of_decide_eq_true hbel)
    refine ⟨selected_eq_none hle (hregular.index_le hterms hpos hintents hle)
      (fun hdb => huses hdb y ((survivors_sublist _ _).subset hmem)) hidx, ?_⟩
    refine (hle_iff y hmem).1 (hid.le.trans (hlowest_names.2.trans ?_))
    rw [hcom]
    exact le_maxId (by simp)
  obtain ⟨hrepl, horphaned⟩ := filter_append_of_flushed hflu fun y hy =>
    hle_iff y (by rw [hspl]; exact mem_append_right _ hy)
  rw [← hspl] at hrepl horphaned
  refine ⟨⟨s₃.pendingReplicates.map (·.replicate), s₃.prevOpId, s₃.committedOpId,
    s₃.maxCommittedHybridTime, s₃.replayed, s₃.retryableRequests⟩, ?_, hcom, ?_, ?_, ?_⟩
  · unfold playSegments
    dsimp only
    rw [← htoReplay, hs₁, Except.ok_bind]
    rw [hs₂, Except.ok_bind, hs₃, Except.ok_bind, if_pos hchk]
    rfl
  · exact hrep.replayed_eq.trans hrepl
  · rw [hrep.replayed_eq]
    exact replayed_pairwise ((survivors_pairwise _ _).filter _)
  · rw [hrep.pending_eq, horphaned]

end Result

/-! ## A log with an overwritten entry -/

/-- An operation of a log. -/
def operation (term index committedTerm committedIndex : ℕ) (entryTime : ℤ) : Entry :=
  ⟨{ id := ⟨term, index⟩
     committedOpId := ⟨committedTerm, committedIndex⟩
     hybridTime := index
     opType := .writeOp
     writeRequest := some none }, entryTime⟩

/-- The second segment begins with an entry that is overwritten. -/
def overwrittenSegments : List LogSegment :=
  [⟨[operation 1 1 0 0 1, operation 1 2 1 1 2], ⟨1, 1⟩⟩,
    ⟨[operation 1 3 1 1 10, operation 2 3 1 2 11, operation 2 4 1 2 12], ⟨1, 2⟩⟩,
    ⟨[operation 2 5 2 4 100], ⟨2, 4⟩⟩]

/-- Everything up to the entry that overwrites is flushed. -/
def overwrittenOptions : Options :=
  { skipFlushedEntries := true
    retryableRequestTimeoutSecs := 60
    hasIntentsDb := true
    flushedOpIds := ⟨⟨2, 3⟩, ⟨2, 3⟩⟩
    maxPersistentHybridTime := 3 }

/-- Every operation can be applied. -/
def playAll : PlayRequest := fun _ _ => true

/-- A property of the places of a list, place by place. -/
lemma forall_split {α : Type*} {l : List α} {P : List α → α → List α → Prop}
    (h : ∀ k (hk : k < l.length), P (l.take k) l[k] (l.drop (k + 1))) :
    ∀ pre x post, l = pre ++ x :: post → P pre x post := by
  rintro pre x post rfl
  have hk := h pre.length (by simp)
  simpa using hk

/-- The segments of the run are such as are written. -/
lemma written_overwrittenSegments : Written overwrittenSegments where
  index_pos := by decide
  contiguous := by decide
  terms := by decide
  committed := by
    refine forall_split fun k hk => ?_
    have hk' : k < 6 := hk
    interval_cases k <;> decide +revert
  segmentCommitted := by
    refine forall_split fun k hk => ?_
    have hk' : k < 3 := hk
    interval_cases k <;> decide +revert

theorem playSegments_exact_overwritten :
    ∃ info, playSegments playAll overwrittenOptions overwrittenSegments = .ok info ∧
      info.lastCommittedId = ⟨2, 4⟩ ∧
      info.replayed.map (·.1.id) = [⟨2, 4⟩] ∧
      info.orphanedReplicates.map (·.id) = [⟨2, 5⟩] := by
  have hflu : Names (entriesOf overwrittenSegments) [] overwrittenOptions.flushedOpIds.regular := by
    decide
  have hplay : ∀ e ∈ surviving (entriesOf overwrittenSegments), ∀ flag,
      playAll e.replicate flag = true := fun _ _ _ => rfl
  obtain ⟨info, hinfo, hcom, hrepl, -, horphaned⟩ :=
    playSegments_exact written_overwrittenSegments hflu hflu (by decide) nofun hplay
  have hid : info.lastCommittedId = ⟨2, 4⟩ := hcom.trans (by decide)
  refine ⟨info, hinfo, hid, ?_, ?_⟩
  · rw [hrepl, hid]
    decide
  · rw [horphaned, hid]
    decide

end TabletBootstrap
