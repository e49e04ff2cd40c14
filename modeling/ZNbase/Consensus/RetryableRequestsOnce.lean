import Mathlib.Data.Finset.Basic
import ZNbase.Lib.RangeList
import ZNbase.Lib.Run
import ZNbase.Consensus.RetryableRequests

/-!
# Requests are registered once

Runs of `Register`, `ReplicationFinished` and `Bootstrap`, compared with what a set of running and
a set of replicated request ids would say.

- `ClientHistory` is that specification: it reads the largest `min_running_request_id`, the
  running ids and the replicated or bootstrapped ids of a client off a history of calls.
- `AddsId` is what `addReplicated` does to the set of ids the ranges stand for.
- The two containers are keyed by operation ids as well as by request ids, so a request can be
  turned away, or lost, for the operation id of another one. `Event.OpIdsDistinct` is what keeps
  the containers and the sets together.
-/

open List RangeList ClientRetryableRequests

/-! ## Adding an id to the ranges -/

namespace ReplicatedRetryableRequestRange

/-- The ids that the ranges stand for include `id`. -/
abbrev CoversId (ranges : List ReplicatedRetryableRequestRange) (id : RetryableRequestId) : Prop :=
  Covers firstId lastId ranges id

/-- The ranges are disjoint and in order, and no two share their `minOpId`. -/
structure WellFormed (ranges : List ReplicatedRetryableRequestRange) : Prop where
  separated : Separated firstId lastId ranges
  distinct : ranges.Pairwise fun r s => r.minOpId ≠ s.minOpId

lemma wellFormed_nil : WellFormed [] := ⟨separated_nil, .nil⟩

variable {before after ranges : List ReplicatedRetryableRequestRange}
  {r prev : ReplicatedRetryableRequestRange} {id x : RetryableRequestId}

/-- The ids of a range in the middle. -/
lemma coversId_insert :
    CoversId (before ++ r :: after) x ↔ CoversId before x ∨ (r.firstId ≤ x ∧ x ≤ r.lastId) ∨
      CoversId after x := by
  rw [CoversId, covers_append, covers_cons]

/-- Well-formedness around one range. -/
lemma wellFormed_insert :
    WellFormed (before ++ r :: after) ↔ WellFormed (before ++ after) ∧ r.firstId ≤ r.lastId ∧
        (∀ s ∈ before, s.lastId < r.firstId) ∧ (∀ s ∈ after, r.lastId < s.firstId) ∧
        ∀ s ∈ before ++ after, s.minOpId ≠ r.minOpId := by
  constructor
  · rintro ⟨hsep, hdist⟩
    obtain ⟨hb, hra, hlt⟩ := separated_append.1 hsep
    obtain ⟨hr, hra, ha⟩ := separated_cons.1 hra
    obtain ⟨hdb, hdra, hdlt⟩ := pairwise_append.1 hdist
    obtain ⟨hdr, hda⟩ := pairwise_cons.1 hdra
    refine ⟨⟨separated_append.2 ⟨hb, ha, fun s hs t ht => hlt s hs t (by simp [ht])⟩,
      pairwise_append.2 ⟨hdb, hda, fun s hs t ht => hdlt s hs t (by simp [ht])⟩⟩, hr,
      fun s hs => hlt s hs r (by simp), hra, ?_⟩
    -- its operation id is none of the others'
    intro s hs
    rcases mem_append.1 hs with hs | hs
    · exact hdlt s hs r (by simp)
    · exact (hdr s hs).symm
  · rintro ⟨⟨hsep, hdist⟩, hr, hbr, hra, hne⟩
    obtain ⟨hb, ha, hlt⟩ := separated_append.1 hsep
    obtain ⟨hdb, hda, hdlt⟩ := pairwise_append.1 hdist
    refine ⟨separated_append.2 ⟨hb, separated_cons.2 ⟨hr, hra, ha⟩, ?_⟩,
      pairwise_append.2 ⟨hdb, pairwise_cons.2 ⟨?_, hda⟩, ?_⟩⟩
    · intro s hs t ht
      rcases mem_cons.1 ht with rfl | ht
      · exact hbr s hs
      · exact hlt s hs t ht
    · exact fun s hs => (hne s (by simp [hs])).symm
    · intro s hs t ht
      rcases mem_cons.1 ht with rfl | ht
      · exact hne s (by simp [hs])
      · exact hdlt s hs t ht

lemma wellFormed_cons :
    WellFormed (r :: after) ↔ WellFormed after ∧ r.firstId ≤ r.lastId ∧
      (∀ s ∈ after, r.lastId < s.firstId) ∧
        ∀ s ∈ after, s.minOpId ≠ r.minOpId := by
  have h := @wellFormed_insert [] after r
  simpa using h

/-- What adding `id` does: the new ranges are well-formed and stand for one more id. -/
structure AddsId (ranges : List ReplicatedRetryableRequestRange) (id : RetryableRequestId)
    (ranges' : List ReplicatedRetryableRequestRange) : Prop where
  wellFormed : WellFormed ranges'
  covers_iff : ∀ x, CoversId ranges' x ↔ CoversId ranges x ∨ x = id

/-- What adding `id` under `opId` does, whatever operation ids the ranges have: a new range stands
for ids that were there, and maybe for `id`, and its operation id is not above theirs. Nothing is
lost if no range has `opId`. -/
structure GrowsBy (ranges : List ReplicatedRetryableRequestRange) (id : RetryableRequestId)
    (opId : OpId) (ranges' : List ReplicatedRetryableRequestRange) : Prop where
  wellFormed : WellFormed ranges'
  minOpId : ∀ r ∈ ranges', ∀ x, r.firstId ≤ x ∧ x ≤ r.lastId → x = id ∧ r.minOpId ≤ opId ∨
    ∃ s ∈ ranges, (s.firstId ≤ x ∧ x ≤ s.lastId) ∧ r.minOpId ≤ s.minOpId
  complete : (∀ s ∈ ranges, s.minOpId ≠ opId) → ∀ x, CoversId ranges x ∨ x = id → CoversId ranges' x

variable {ranges' l : List ReplicatedRetryableRequestRange} {opId : OpId}

/-- Nothing but the one id is new. -/
lemma GrowsBy.covers (h : GrowsBy ranges id opId ranges') (hx : CoversId ranges' x) :
    CoversId ranges x ∨ x = id := by
  obtain ⟨r, hr, hx⟩ := hx
  rcases h.minOpId r hr x hx with ⟨rfl, -⟩ | ⟨s, hs, hsx, -⟩
  · exact .inr rfl
  · exact .inl ⟨s, hs, hsx⟩

/-- Some of the ranges are well-formed ranges. -/
lemma WellFormed.sublist (h : WellFormed ranges) (hsub : ranges'.Sublist ranges) :
    WellFormed ranges' :=
  ⟨⟨fun s hs => h.separated.nonempty s (hsub.subset hs), h.separated.ordered.sublist hsub⟩,
    h.distinct.sublist hsub⟩

lemma append_sublist : (before ++ after).Sublist (before ++ (l ++ after)) :=
  (Sublist.refl before).append (sublist_append_right l after)

variable (hwf : WellFormed (before ++ (l ++ after)))

include hwf

/-- The ranges `l` are lost to a range with the same operation id. -/
lemma growsBy_drop (hclash : ∃ s ∈ before ++ after, s.minOpId = opId) :
    GrowsBy (before ++ (l ++ after)) id opId (before ++ after) := by
  refine ⟨hwf.sublist append_sublist, fun s hs x hx =>
    .inr ⟨s, append_sublist.subset hs, hx, le_rfl⟩,
    fun hfree => ?_⟩
  obtain ⟨s, hs, hop⟩ := hclash
  exact absurd hop (hfree s (append_sublist.subset hs))

/-- A range with the ids of `l` and `id` takes the place of `l`. -/
lemma growsBy_replace (hbef : ∀ s ∈ before, s.lastId < id) (haft : ∀ s ∈ after, id < s.firstId)
    (hcov : ∀ x, CoversId l x ∨ x = id ↔ r.firstId ≤ x ∧ x ≤ r.lastId)
    (hle : r.minOpId ≤ opId) (hmid : ∀ s ∈ l, r.minOpId ≤ s.minOpId)
    (hfree : ∀ s ∈ before ++ after, s.minOpId ≠ r.minOpId) :
    GrowsBy (before ++ (l ++ after)) id opId (before ++ r :: after) := by
  obtain ⟨-, hma, hlt⟩ := separated_append.1 hwf.separated
  obtain ⟨-, -, hmlt⟩ := separated_append.1 hma
  obtain ⟨hfirst, hlast⟩ := (hcov id).1 (.inr rfl)
  refine ⟨wellFormed_insert.2 ⟨hwf.sublist append_sublist, hfirst.trans hlast, fun s hs =>
    ?_, fun s hs => ?_,
    hfree⟩, fun s hs x hx => ?_, fun _ x hx => ?_⟩
  -- both ends of the range are `id` or lie in `l`
  · rcases (hcov r.firstId).2 ⟨le_rfl, hfirst.trans hlast⟩ with ⟨t, ht, htx⟩ | heq
    · exact (hlt s hs t (by simp [ht])).trans_le htx.1
    · exact heq ▸ hbef s hs
  · rcases (hcov r.lastId).2 ⟨hfirst.trans hlast, le_rfl⟩ with ⟨t, ht, htx⟩ | heq
    · exact htx.2.trans_lt (hmlt t ht s hs)
    · exact heq ▸ haft s hs
  · rcases mem_append.1 hs with hs | hs
    · exact .inr ⟨s, by simp [hs], hx, le_rfl⟩
    rcases mem_cons.1 hs with rfl | hs
    · rcases (hcov x).2 hx with ⟨t, ht, htx⟩ | rfl
      · exact .inr ⟨t, by simp [ht], htx, hmid t ht⟩
      · exact .inl ⟨rfl, hle⟩
    · exact .inr ⟨s, by simp [hs], hx, le_rfl⟩
  · rw [coversId_insert, ← hcov]
    simp only [covers_append] at hx
    tauto

end ReplicatedRetryableRequestRange

open ReplicatedRetryableRequestRange

namespace ClientRetryableRequests

variable {before after ranges l ranges' : List ReplicatedRetryableRequestRange}
  {r prev : ReplicatedRetryableRequestRange} {id x : RetryableRequestId} {opId m : OpId}
  {rangeTimeLimit time : ℤ}

section

variable (hwf : WellFormed (before ++ (l ++ after))) (hbef : ∀ s ∈ before, s.lastId < id)
  (haft : ∀ s ∈ after, id < s.firstId)

include hwf hbef haft

/-- Putting back a range with the ids of `l` and `id`, under the least of their operation ids. -/
lemma growsBy_updateMinOpId (hcov : ∀ x, CoversId l x ∨ x = id ↔ r.firstId ≤ x ∧ x ≤ r.lastId)
    (hr : ∃ t ∈ l, r.minOpId = t.minOpId) (hm : m = opId ∨ ∃ t ∈ l, m = t.minOpId) (hle : m ≤ opId)
    (hmid : ∀ s ∈ l, m ≤ s.minOpId) :
    GrowsBy (before ++ (l ++ after)) id opId (updateMinOpId before r m after) := by
  -- operation ids of the joined ranges are those of no other range
  have hfree : ∀ t ∈ l, ∀ s ∈ before ++ after, s.minOpId ≠ t.minOpId := by
    intro t ht s hs
    obtain ⟨-, hd, hbd⟩ := pairwise_append.1 hwf.distinct
    rcases mem_append.1 hs with hs | hs
    · exact hbd s hs t (by simp [ht])
    · exact ((pairwise_append.1 hd).2.2 t ht s hs).symm
  unfold updateMinOpId
  split_ifs with hlt hany
  · -- the new least operation id is taken, which only a new id can be
    obtain ⟨s, hs, heq⟩ := any_eq_true.1 hany
    rcases hm with rfl | ⟨t, ht, rfl⟩
    · exact growsBy_drop hwf ⟨s, hs, of_decide_eq_true heq⟩
    · exact absurd (of_decide_eq_true heq) (hfree t ht s hs)
  · refine growsBy_replace hwf hbef haft hcov hle hmid fun s hs heq => hany ?_
    exact any_eq_true.2 ⟨s, hs, decide_eq_true heq⟩
  · have hrm := not_lt.1 hlt
    obtain ⟨t, ht, heq⟩ := hr
    exact growsBy_replace hwf hbef haft hcov (hrm.trans hle) (fun s hs => hrm.trans (hmid s hs))
      (heq ▸ hfree t ht)

end

/-- Two ranges are joined if one id between them is missing. -/
lemma tryJoinRanges_eq_some (h : tryJoinRanges rangeTimeLimit before r m after = some ranges') :
    ∃ init prev, before = init ++ [prev] ∧ prev.lastId + 2 = r.firstId ∧
      ranges' = updateMinOpId init (r.prepareJoinWithPrev prev) (min m prev.minOpId) after := by
  unfold tryJoinRanges at h
  split at h
  · cases h
  rename_i prev hprev
  split_ifs at h with hgap
  cases h
  exact ⟨_, prev, (dropLast_append_getLast? prev hprev).symm, not_not.1 hgap, rfl⟩

/-- An id is joined to a range that ends before it. -/
lemma tryJoinToEndOfRange_eq_some
    (h : tryJoinToEndOfRange rangeTimeLimit before opId id time after = some ranges') :
    ∃ init prev, before = init ++ [prev] ∧ prev.lastId + 1 = id ∧ ranges' = updateMinOpId init
      { prev.insertTime time with lastId := prev.lastId + 1 } (min prev.minOpId opId) after := by
  unfold tryJoinToEndOfRange at h
  split at h
  · cases h
  rename_i prev hprev
  split_ifs at h with hend
  cases h
  exact ⟨_, prev, (dropLast_append_getLast? prev hprev).symm, not_not.1 hend, rfl⟩

/-- `AddReplicated` adds an id that is not there yet. -/
lemma growsBy_addReplicated (rangeTimeLimit time : ℤ) (opId : OpId) (hwf : WellFormed ranges)
    (hnew : ¬ CoversId ranges id) :
    GrowsBy ranges id opId (addReplicated rangeTimeLimit ranges opId id time) := by
  -- the id comes after the ranges `before` and before the ranges `after`
  have hspl : belowId ranges id ++ fromId ranges id = ranges := takeWhile_append_dropWhile
  have hbef : ∀ s ∈ belowId ranges id, s.lastId < id := by
    intro s hs
    simpa using mem_takeWhile_imp hs
  have haft : ∀ s ∈ fromId ranges id, id < s.firstId := hwf.separated.lt_lo_of_mem_dropWhile hnew
  simp only [addReplicated]
  generalize belowId ranges id = before at *
  generalize fromId ranges id = after at *
  subst hspl
  -- it is joined to the last range before it, or gets a range of its own
  have hjoin :
      GrowsBy (before ++ after) id opId ((tryJoinToEndOfRange rangeTimeLimit before opId id time
      after).getD (emplaceRange before (single id opId time) after)) := by
    cases h : tryJoinToEndOfRange rangeTimeLimit before opId id time after with
    | some ranges' =>
      obtain ⟨init, prev, rfl, hend, rfl⟩ := tryJoinToEndOfRange_eq_some h
      have hp := hwf.separated.nonempty prev (by simp)
      rw [append_assoc] at hwf ⊢
      refine growsBy_updateMinOpId hwf (fun s hs => hbef s (by simp [hs])) haft (fun x => ?_)
        ⟨prev, by simp, rfl⟩ ?_ (min_le_right _ _) (by simp)
      · simp only [covers_cons, not_covers_nil, insertTime]
        lia
      · exact (min_choice prev.minOpId opId).symm.imp_right fun h => ⟨prev, by simp, h⟩
    | none =>
      rw [Option.getD_none, emplaceRange]
      split_ifs with hany
      · -- a range with the same last id or operation id prevents the new one
        obtain ⟨s, hs, heq⟩ := any_eq_true.1 hany
        refine growsBy_drop (l := []) hwf
          ⟨s, hs, (of_decide_eq_true heq).resolve_left fun hlast => ?_⟩
        rcases mem_append.1 hs with hb | ha
        · exact (hbef s hb).ne hlast
        · exact ((haft s ha).trans_le (hwf.separated.nonempty s hs)).ne' hlast
      · refine growsBy_replace (l := []) hwf hbef haft (fun x => ?_) le_rfl (by simp)
          fun s hs heq => hany ?_
        · simp only [not_covers_nil, false_or, single]
          lia
        · exact any_eq_true.2 ⟨s, hs, decide_eq_true (.inr heq)⟩
  split
  · exact hjoin
  rename_i next after
  have hr := hwf.separated.nonempty next (by simp)
  split_ifs with hpresent hnext
  · exact absurd (haft next (by simp)) (not_lt.2 hpresent)
  · -- the next range starts with the next id, and it may now touch the range before as well
    have haft' : ∀ s ∈ after, id < s.firstId := fun s hs => haft s (by simp [hs])
    cases h :
      tryJoinRanges rangeTimeLimit before (next.insertTime time) (min next.minOpId opId) after with
    | some ranges' =>
      obtain ⟨init, prev, rfl, hgap, rfl⟩ := tryJoinRanges_eq_some h
      have hp := hwf.separated.nonempty prev (by simp)
      rw [append_assoc] at hwf ⊢
      refine growsBy_updateMinOpId (l := [prev, next]) hwf (fun s hs => hbef s (by simp [hs])) haft'
        (fun x => ?_) ⟨next, by simp, rfl⟩ ?_ ?_ ?_
      · simp only [covers_cons, not_covers_nil, insertTime, prepareJoinWithPrev] at hgap ⊢
        lia
      · rcases min_choice (min next.minOpId opId) prev.minOpId with h | h
        · rw [h]
          exact (min_choice next.minOpId opId).symm.imp_right fun h => ⟨next, by simp, h⟩
        · exact .inr ⟨prev, by simp, h⟩
      · exact (min_le_left _ _).trans (min_le_right _ _)
      · simp
    | none =>
      refine growsBy_updateMinOpId (l := [next]) hwf hbef haft' (fun x => ?_)
        ⟨next, by simp, rfl⟩ ?_ (min_le_right _ _) (by simp)
      · simp only [covers_cons, not_covers_nil, insertTime]
        lia
      · exact (min_choice next.minOpId opId).symm.imp_right fun h => ⟨next, by simp, h⟩
  · exact hjoin

/-- Under an operation id that no range has as its least one, nothing is lost. -/
lemma addsId_addReplicated (rangeTimeLimit time : ℤ) (hwf : WellFormed ranges)
    (hnew : ¬ CoversId ranges id) (hfree : ∀ s ∈ ranges, s.minOpId ≠ opId) :
    AddsId ranges id (addReplicated rangeTimeLimit ranges opId id time) := by
  have h := growsBy_addReplicated rangeTimeLimit time opId hwf hnew
  exact ⟨h.wellFormed, fun x => ⟨h.covers, h.complete hfree x⟩⟩

/-- An id that is covered already is left as it is. -/
lemma addReplicated_of_covers {rangeTimeLimit time : ℤ} (hwf : WellFormed ranges)
    (hold : CoversId ranges id) : addReplicated rangeTimeLimit ranges opId id time = ranges := by
  simp only [addReplicated]
  split
  · rename_i hnil
    exact absurd hold (not_covers_of_dropWhile_nil hnil)
  · rename_i next after hcons
    rw [if_pos ((hwf.separated.covers_iff_of_dropWhile_cons hcons).1 hold)]

/-- The search of `Register` finds exactly the covered ids. -/
lemma isReplicated_iff {c : ClientRetryableRequests} (hwf : WellFormed c.replicated) :
    c.isReplicated id ↔ CoversId c.replicated id := by
  unfold isReplicated
  split
  · rename_i hnil
    simpa using not_covers_of_dropWhile_nil hnil
  · rename_i r after hcons
    rw [CoversId, hwf.separated.covers_iff_of_dropWhile_cons hcons]
    simp

/-! ## Forgetting ids -/

/-- Cutting the ids below a bound leaves well-formed ranges that stand for the same ids from the
bound on, under the operation ids they had. -/
lemma cleanupReplicatedRequests_spec {c : ClientRetryableRequests} {m : RetryableRequestId}
    (hwf : WellFormed c.replicated) :
    WellFormed (c.cleanupReplicatedRequests m).replicated ∧ ∀ x, max c.minRunningRequestId m ≤ x →
        (CoversId (c.cleanupReplicatedRequests m).replicated x ↔ CoversId c.replicated x) := by
  unfold cleanupReplicatedRequests
  split_ifs with hlt
  · have hwf' : WellFormed (fromId c.replicated m) :=
      ⟨hwf.separated.dropWhile _, hwf.distinct.sublist (dropWhile_sublist _)⟩
    have hcov : ∀ x, max c.minRunningRequestId m ≤ x →
        (CoversId (fromId c.replicated m) x ↔ CoversId c.replicated x) := fun x hx =>
      covers_dropWhile ((le_max_right _ _).trans hx)
    -- the first range that is kept may have to be cut
    have hhead := head?_dropWhile_not (fun r => decide (r.lastId < m)) c.replicated
    rw [← fromId] at hhead
    generalize fromId c.replicated m = kept at hwf' hcov hhead ⊢
    cases kept with
    | nil => exact ⟨hwf', hcov⟩
    | cons r after =>
      simp only [decide_eq_false_iff_not, not_lt] at hhead
      obtain ⟨hwf'', hr, ha, hne⟩ := wellFormed_cons.1 hwf'
      dsimp only
      split_ifs with htrim
      · refine ⟨wellFormed_cons.2 ⟨hwf'', hhead, ha, hne⟩, ?_⟩
        intro x hx
        rw [← hcov x hx, CoversId, CoversId, covers_cons, covers_cons]
        have : m ≤ x ∧ x ≤ r.lastId ↔ r.firstId ≤ x ∧ x ≤ r.lastId := by lia
        tauto
      · exact ⟨hwf', hcov⟩
  · exact ⟨hwf, fun x _ => Iff.rfl⟩

end ClientRetryableRequests

/-! ## The running requests -/

namespace ClientRetryableRequests

variable {c : ClientRetryableRequests} {q : RunningRetryableRequest} {round : RetryableRound}

/-- A request is added unless its id or its operation id is in use. -/
lemma emplaceRunning_snd :
    (c.emplaceRunning q round).2 = true ↔ ∀ q' ∈ c.running, q'.requestId ≠ q.requestId ∧
      q'.opId ≠ q.opId := by
  unfold emplaceRunning
  split_ifs with hid hop
  · obtain ⟨q', hq', heq⟩ := any_eq_true.1 hid
    simp only [false_iff]
    exact fun hall => (hall q' hq').1 (of_decide_eq_true heq)
  · obtain ⟨q', hq', heq⟩ := any_eq_true.1 hop
    simp only [false_iff]
    exact fun hall => (hall q' hq').2 (of_decide_eq_true heq)
  · simp only [any_eq_true, decide_eq_true_eq, not_exists, not_and] at hid hop
    simp only [true_iff]
    exact fun q' hq' => ⟨hid q' hq', hop q' hq'⟩

/-- Giving a duplicate round to some of the requests does not change their ids. -/
lemma exists_requestId_map {l : List RunningRetryableRequest} {p : RunningRetryableRequest → Bool}
    {id : RetryableRequestId} :
    (∃ q' ∈ l.map fun q' =>
      if p q' then { q' with duplicateRounds := q'.duplicateRounds ++ [round] } else q',
        q'.requestId = id) ↔ ∃ q' ∈ l, q'.requestId = id := by
  simp only [mem_map, exists_exists_and_eq_and]
  refine exists_congr fun q' => and_congr_right fun _ => ?_
  split_ifs
  · rfl
  · rfl

/-- A request is running once. -/
lemma emplaceRunning_fst :
    (c.emplaceRunning q round).1.replicated = c.replicated ∧
      (c.emplaceRunning q round).1.minRunningRequestId = c.minRunningRequestId ∧
      ∀ id, (∃ q' ∈ (c.emplaceRunning q round).1.running, q'.requestId = id) ↔
        ((c.emplaceRunning q round).2 = true ∧ id = q.requestId) ∨ ∃ q' ∈ c.running,
          q'.requestId = id := by
  unfold emplaceRunning
  split_ifs
  · exact ⟨rfl, rfl, fun id => by rw [exists_requestId_map]; simp⟩
  · exact ⟨rfl, rfl, fun id => by rw [exists_requestId_map]; simp⟩
  · exact ⟨rfl, rfl, fun id => by simp [eq_comm]⟩

end ClientRetryableRequests

/-! ## What a history says about a client -/

namespace RetryableRequests

/-- The part of a history that concerns one client. -/
structure ClientHistory where
  /-- The largest `min_running_request_id` seen, counting the initial 0. -/
  minRunningSeen : RetryableRequestId := 0
  /-- The ids that were registered and have not finished since. -/
  running : Finset RetryableRequestId := ∅
  /-- The ids that were successfully replicated or bootstrapped. -/
  done : Finset RetryableRequestId := ∅

namespace ClientHistory

variable (h : ClientHistory)

def seeMinRunning (m : RetryableRequestId) : ClientHistory :=
  { h with minRunningSeen := max h.minRunningSeen m }

def start (id : RetryableRequestId) : ClientHistory :=
  { h with running := insert id h.running }

def finish (id : RetryableRequestId) : ClientHistory :=
  { h with running := h.running.erase id }

def complete (id : RetryableRequestId) : ClientHistory :=
  { h with done := insert id h.done }

end ClientHistory

/-- The containers of a client agree with its history. -/
structure Agrees (c : ClientRetryableRequests) (h : ClientHistory) : Prop where
  minRunning : c.minRunningRequestId = h.minRunningSeen
  running : ∀ id, (∃ q ∈ c.running, q.requestId = id) ↔ id ∈ h.running
  wellFormed : WellFormed c.replicated
  done : ∀ id, h.minRunningSeen ≤ id → (CoversId c.replicated id ↔ id ∈ h.done)

lemma agrees_init : Agrees {} {} :=
  ⟨rfl, by simp, wellFormed_nil, by simp [CoversId]⟩

variable {c : ClientRetryableRequests} {h : ClientHistory}

/-- Seeing a `min_running_request_id` keeps the containers and the history together. -/
lemma Agrees.cleanup (ha : Agrees c h) (m : RetryableRequestId) :
    Agrees (c.cleanupReplicatedRequests m) (h.seeMinRunning m) := by
  obtain ⟨hwf, hcov⟩ :=
    cleanupReplicatedRequests_spec ha.wellFormed
  rw [ha.minRunning] at hcov
  refine ⟨?_, ?_, hwf, ?_⟩
  · rw [minRunningRequestId_cleanupReplicatedRequests, ha.minRunning]
    rfl
  · rw [running_cleanupReplicatedRequests]
    exact ha.running
  · intro id hid
    rw [hcov id hid]
    exact ha.done id ((le_max_left _ _).trans hid)

/-- Adding a replicated id keeps them together. -/
lemma Agrees.addReplicated {rangeTimeLimit time : ℤ} {opId : OpId} {id : RetryableRequestId}
    (ha : Agrees c h) (hfree : c.isReplicated id ∨ ∀ r ∈ c.replicated, r.minOpId ≠ opId) :
    Agrees
      { c with
        replicated := addReplicated rangeTimeLimit c.replicated opId id time }
      (h.complete id) := by
  by_cases hold : CoversId c.replicated id
  · -- the id was in a range before
    rw [addReplicated_of_covers ha.wellFormed hold]
    refine ⟨ha.minRunning, ha.running, ha.wellFormed, ?_⟩
    intro x hx
    rw [ha.done x hx, ClientHistory.complete, Finset.mem_insert]
    constructor
    · exact Or.inr
    · rintro (rfl | hin)
      · exact (ha.done x hx).1 hold
      · exact hin
  · have hnot := (isReplicated_iff ha.wellFormed).not.2 hold
    have hfree := hfree.resolve_left hnot
    have hadd := addsId_addReplicated rangeTimeLimit time ha.wellFormed
      hold hfree
    refine ⟨ha.minRunning, ha.running, hadd.wellFormed, ?_⟩
    intro x hx
    rw [hadd.covers_iff, ha.done x hx, ClientHistory.complete, Finset.mem_insert, or_comm]

/-- Adding a running request, or a duplicate of one, keeps them together. -/
lemma Agrees.emplaceRunning (q : RunningRetryableRequest) (round : RetryableRound)
    (ha : Agrees c h) :
    Agrees (c.emplaceRunning q round).1 (if (c.emplaceRunning q round).2 then h.start q.requestId
      else h) := by
  obtain ⟨hrep, hmin, hrun⟩ := @ClientRetryableRequests.emplaceRunning_fst c q round
  split_ifs with hacc
  · refine ⟨hmin.trans ha.minRunning, ?_, hrep ▸ ha.wellFormed, hrep ▸ ha.done⟩
    intro id
    rw [hrun, ha.running]
    simp [hacc, ClientHistory.start]
  · refine ⟨hmin.trans ha.minRunning, ?_, hrep ▸ ha.wellFormed, hrep ▸ ha.done⟩
    intro id
    rw [hrun, ha.running]
    simp [hacc]

/-- Finishing a request takes it off the running ones. -/
lemma Agrees.finish (ha : Agrees c h) (id : RetryableRequestId) :
    Agrees { c with running := c.running.filter (·.requestId ≠ id) } (h.finish id) := by
  refine ⟨ha.minRunning, ?_, ha.wellFormed, ha.done⟩
  intro x
  rw [ClientHistory.finish, Finset.mem_erase, ← ha.running]
  constructor
  · rintro ⟨q, hq, rfl⟩
    obtain ⟨hq, hne⟩ := mem_filter.1 hq
    exact ⟨of_decide_eq_true hne, q, hq, rfl⟩
  · rintro ⟨hne, q, hq, rfl⟩
    exact ⟨q, mem_filter.2 ⟨hq, decide_eq_true hne⟩, rfl⟩

/-! ## The calls, for one client -/

variable {rangeTimeLimit : ℤ} {w : WriteRequest} {round : RetryableRound} {opId : OpId}
  {entryTime : RestartSafeCoarseTimePoint} {status : Status} {leaderTerm : ℕ}

/-- What the history records of a `Register`. -/
def ClientHistory.register (h : ClientHistory) (w : WriteRequest) (accepted : Bool) :
    ClientHistory :=
  let h := h.seeMinRunning w.minRunningRequestId
  if accepted then h.start w.requestId else h

/-- What the history records of a `ReplicationFinished`. -/
def ClientHistory.replicationFinished (h : ClientHistory) (w : WriteRequest) (status : Status) :
    ClientHistory :=
  let h := h.finish w.requestId
  if status.code = .ok then h.complete w.requestId else h

/-- What the history records of a `Bootstrap`. -/
def ClientHistory.bootstrap (h : ClientHistory) (w : WriteRequest) : ClientHistory :=
  (h.seeMinRunning w.minRunningRequestId).complete w.requestId

/-- A request is registered. -/
lemma Agrees.register (ha : Agrees c h) :
    Agrees (c.register round w entryTime).1 (h.register w (c.register round w entryTime).2.1) := by
  have hc := ha.cleanup w.minRunningRequestId
  unfold ClientRetryableRequests.register
  dsimp only
  split_ifs
  · exact hc
  · exact hc
  · exact hc.emplaceRunning ⟨w.requestId, round.replicateMsg.id, entryTime, []⟩ round

/-- A request is replicated, or has failed. -/
lemma Agrees.replicationFinished (ha : Agrees c h)
    (hok : status.code = .ok → (∃ q ∈ c.running, q.requestId = w.requestId) ∧
      (c.isReplicated w.requestId ∨ ∀ r ∈ c.replicated, r.minOpId ≠ opId)) :
    Agrees (c.replicationFinished rangeTimeLimit opId w status leaderTerm).1
      (h.replicationFinished w status) := by
  have hf := ha.finish w.requestId
  unfold ClientRetryableRequests.replicationFinished ClientHistory.replicationFinished
  split
  · -- The request is not running, so there is nothing to take off.
    rename_i hnone
    have hnot : ¬ ∃ q ∈ c.running, q.requestId = w.requestId := by
      simpa using hnone
    have hsame : h.finish w.requestId = h := by
      rw [ClientHistory.finish, Finset.erase_eq_of_notMem ((ha.running _).not.1 hnot)]
    rw [if_neg fun h => hnot (hok h).1, hsame]
    exact ha
  · split_ifs with hcode
    · exact hf.addReplicated (hok hcode).2
    · exact hf

/-- A request is read from the log. -/
lemma Agrees.bootstrap (ha : Agrees c h) (hok : (∀ q ∈ c.running, q.requestId ≠ w.requestId) ∧
      ((c.cleanupReplicatedRequests w.minRunningRequestId).isReplicated w.requestId ∨
        ∀ r ∈ (c.cleanupReplicatedRequests w.minRunningRequestId).replicated, r.minOpId ≠ opId)) :
    Agrees (c.bootstrap rangeTimeLimit opId w entryTime) (h.bootstrap w) := by
  have hnot : ¬ c.running.any (·.requestId = w.requestId) := by
    simpa using hok.1
  rw [ClientRetryableRequests.bootstrap, if_neg hnot]
  exact (ha.cleanup w.minRunningRequestId).addReplicated hok.2

/-- `Register` accepts a request exactly when its id is not below the smallest running one, is
neither running nor done, and its operation id is not that of another running request. -/
lemma Agrees.register_iff (ha : Agrees c h) :
    (c.register round w entryTime).2.1 = true ↔
      max h.minRunningSeen w.minRunningRequestId ≤ w.requestId ∧ w.requestId ∉ h.running ∧
        w.requestId ∉ h.done ∧ ∀ q ∈ c.running, q.opId ≠ round.replicateMsg.id := by
  have hc := ha.cleanup w.minRunningRequestId
  have hmin : (c.cleanupReplicatedRequests w.minRunningRequestId).minRunningRequestId =
      max h.minRunningSeen w.minRunningRequestId := hc.minRunning
  simp only [ClientRetryableRequests.register]
  rw [hmin]
  split_ifs with hlow hrep
  · -- the client no longer waits for it
    simp [not_le.2 hlow]
  · -- it is replicated
    rw [isReplicated_iff hc.wellFormed] at hrep
    have hdone := (hc.done _ (not_lt.1 hlow)).1 hrep
    have hdone : w.requestId ∈ h.done := hdone
    simp [hdone]
  · rw [isReplicated_iff hc.wellFormed] at hrep
    have hdone : w.requestId ∉ h.done := (hc.done _ (not_lt.1 hlow)).not.1 hrep
    rw [emplaceRunning_snd, running_cleanupReplicatedRequests, ← ha.running]
    simp only [not_lt.1 hlow, hdone, not_false_eq_true, true_and, not_exists, not_and]
    exact forall₂_and

/-! ## Runs of calls -/

/-- A call with its arguments, and whether `Register` accepted the request. -/
inductive Event
  | register (round : RetryableRound) (entryTime : RestartSafeCoarseTimePoint) (accepted : Bool)
  | replicationFinished (msg : RetryableMsg) (status : Status) (leaderTerm : ℕ)
  | bootstrap (msg : RetryableMsg) (entryTime : RestartSafeCoarseTimePoint)

/-- The message a call is about. -/
def Event.msg : Event → RetryableMsg
  | .register round _ _ => round.replicateMsg
  | .replicationFinished msg _ _ => msg
  | .bootstrap msg _ => msg

/-- One call. -/
def Step (rangeTimeLimit : ℤ) (rr : RetryableRequests) (e : Event) (rr' : RetryableRequests) :
    Prop :=
  match e with
  | .register round entryTime accepted =>
    rr' = (rr.register round entryTime).1 ∧ accepted = (rr.register round entryTime).2.1
  | .replicationFinished msg status leaderTerm =>
    rr' = (rr.replicationFinished rangeTimeLimit msg status leaderTerm).1
  | .bootstrap msg entryTime => rr' = rr.bootstrap rangeTimeLimit msg entryTime

/-- How a call changes the history of the client of its request. -/
def ClientHistory.record (h : ClientHistory) (w : WriteRequest) : Event → ClientHistory
  | .register _ _ accepted => h.register w accepted
  | .replicationFinished _ status _ => h.replicationFinished w status
  | .bootstrap _ _ => h.bootstrap w

/-- How a call changes the history of `client`. -/
def ClientHistory.track (client : ClientId) (h : ClientHistory) (e : Event) : ClientHistory :=
  match e.msg.replicateData with
  | none => h
  | some w => if w.clientId = client then h.record w e else h

/-- The history of a client after a list of calls. -/
def clientHistory (client : ClientId) (events : List Event) : ClientHistory :=
  events.foldl (ClientHistory.track client) {}

lemma clientHistory_concat (client : ClientId) (events : List Event) (e : Event) :
    clientHistory client (events ++ [e]) = (clientHistory client events).track client e := by
  simp [clientHistory]

/-- The request may be registered, as far as its client's history goes: its id is at least the
largest `min_running_request_id` seen, its own included, no request with that id is running, and
none was replicated or bootstrapped. -/
def MayRegister (h : ClientHistory) (w : WriteRequest) : Prop :=
  max h.minRunningSeen w.minRunningRequestId ≤ w.requestId ∧ w.requestId ∉ h.running ∧
    w.requestId ∉ h.done

/-- The call uses the operation ids as the containers expect. `Register` does not come with the
operation id of another running request; a successful replication is of a running request and a
bootstrapped request is not running; and neither of the two, for an id that is not in the ranges
yet, comes with the least operation id of a range. -/
def Event.OpIdsDistinct (rr : RetryableRequests) (e : Event) : Prop :=
  ∀ w, e.msg.replicateData = some w →
    let c := rr.clients w.clientId
    match e with
    | .register round _ _ =>
      ∀ q ∈ c.running, q.opId = round.replicateMsg.id → q.requestId = w.requestId
    | .replicationFinished msg status _ =>
      status.code = .ok → (∃ q ∈ c.running, q.requestId = w.requestId) ∧
        (c.isReplicated w.requestId ∨ ∀ r ∈ c.replicated, r.minOpId ≠ msg.id)
    | .bootstrap msg _ =>
      (∀ q ∈ c.running, q.requestId ≠ w.requestId) ∧
        ((c.cleanupReplicatedRequests w.minRunningRequestId).isReplicated w.requestId ∨
          ∀ r ∈ (c.cleanupReplicatedRequests w.minRunningRequestId).replicated, r.minOpId ≠ msg.id)

variable {rr rr' : RetryableRequests} {events : List Event} {e : Event}

/-- What a call about the request `w` does to the containers of its client. -/
def Event.onClient (rangeTimeLimit : ℤ) (c : ClientRetryableRequests) (w : WriteRequest) :
    Event → ClientRetryableRequests
  | .register round entryTime _ => (c.register round w entryTime).1
  | .replicationFinished msg status leaderTerm =>
    (c.replicationFinished rangeTimeLimit msg.id w status leaderTerm).1
  | .bootstrap msg entryTime => c.bootstrap rangeTimeLimit msg.id w entryTime

/-- A call changes the containers of the client of its request only. -/
lemma Step.clients_eq (h : Step rangeTimeLimit rr e rr') (client : ClientId) :
    rr'.clients client =
      match e.msg.replicateData with
      | none => rr.clients client
      | some w =>
        if client = w.clientId then e.onClient rangeTimeLimit (rr.clients w.clientId) w
        else rr.clients client := by
  cases e with
  | register round entryTime accepted =>
    obtain ⟨rfl, -⟩ := h
    simp only [register, Event.msg]
    cases round.replicateMsg.replicateData with
    | none => rfl
    | some w => exact setClient_clients _ _ _ _
  | replicationFinished msg status leaderTerm =>
    obtain rfl := h
    simp only [replicationFinished, Event.msg]
    cases msg.replicateData with
    | none => rfl
    | some w => exact setClient_clients _ _ _ _
  | bootstrap msg entryTime =>
    obtain rfl := h
    simp only [bootstrap, Event.msg]
    cases msg.replicateData with
    | none => rfl
    | some w => exact setClient_clients _ _ _ _

/-- Every call whose operation ids are distinct keeps the containers of all clients in agreement
with the history. -/
lemma Step.agrees (hstep : Step rangeTimeLimit rr e rr') (hops : e.OpIdsDistinct rr)
    (ha : ∀ client, Agrees (rr.clients client) (clientHistory client events)) (client : ClientId) :
    Agrees (rr'.clients client) (clientHistory client (events ++ [e])) := by
  rw [clientHistory_concat, ClientHistory.track, hstep.clients_eq]
  cases hdata : e.msg.replicateData with
  | none => exact ha client
  | some w =>
    have hops := hops w hdata
    dsimp only at hops ⊢
    -- the event is about one client
    by_cases hclient : client = w.clientId
    · subst hclient
      have ha := ha w.clientId
      rw [if_pos rfl, if_pos rfl]
      cases e with
      | register round entryTime accepted =>
        have hacc : accepted = ((rr.clients w.clientId).register round w entryTime).2.1 := by
          rw [Event.msg] at hdata
          rw [hstep.2, RetryableRequests.register, hdata]
        rw [hacc]
        exact ha.register
      | replicationFinished msg status leaderTerm => exact ha.replicationFinished hops
      | bootstrap msg entryTime => exact ha.bootstrap hops
    · rw [if_neg hclient, if_neg (Ne.symm hclient)]
      exact ha client

/-- Exactly-once registration. In every run whose calls use distinct operation ids, `Register`
accepts a request exactly when the history of its client says it may. -/
theorem register_iff_mayRegister (hdata : round.replicateMsg.replicateData = some w)
    {accepted : Bool}
    (hrun : Run (Restrict (fun rr e => e.OpIdsDistinct rr) (Step rangeTimeLimit)) init
      (events ++ [.register round entryTime accepted]) rr) :
    accepted = true ↔ MayRegister (clientHistory w.clientId events) w := by
  obtain ⟨rr₁, hbef, hlast⟩ := Run.append_iff.1 hrun
  obtain ⟨rr₂, ⟨hops, -, hacc⟩, -⟩ := Run.cons_iff.1 hlast
  have ha : ∀ client, Agrees (rr₁.clients client) (clientHistory client events) := by
    have hinit : ∀ client, Agrees (init.clients client) (clientHistory client []) :=
      fun _ => agrees_init
    have := hbef.history_invariant
      (J := fun pre rr => ∀ client, Agrees (rr.clients client) (clientHistory client pre))
      (fun pre s e s' hJ hs => hs.2.agrees hs.1 hJ) hinit
    simpa using this
  have hops := hops w hdata
  rw [register, hdata] at hacc
  rw [hacc, (ha w.clientId).register_iff]
  refine and_congr_right fun _ => and_congr_right fun hrunning => and_iff_left ?_
  -- A running request with this operation id would have to be this very request.
  intro q hq hop
  have hid := hops q hq hop
  exact hrunning (((ha w.clientId).running _).1 ⟨q, hq, hid⟩)

/-- The write of client 7.7 with the given request id, as the round of an operation. -/
def exampleRound (requestId : RetryableRequestId) (opId : OpId) : RetryableRound :=
  ⟨0, ⟨opId, some ⟨⟨7, 7⟩, requestId, 0⟩⟩, 1⟩

/-- A request that was replicated is turned away when it is retried. -/
theorem register_iff_mayRegister_retry :
    false = true ↔ MayRegister (clientHistory ⟨7, 7⟩ [.register (exampleRound 1 ⟨1, 1⟩) 0 true,
        .replicationFinished (exampleRound 1 ⟨1, 1⟩).replicateMsg ⟨.ok, ""⟩ 1]) ⟨⟨7, 7⟩, 1, 0⟩ := by
  refine @register_iff_mayRegister 30 ⟨⟨7, 7⟩, 1, 0⟩ (exampleRound 1 ⟨1, 2⟩) 0 _
    [.register (exampleRound 1 ⟨1, 1⟩) 0 true,
      .replicationFinished (exampleRound 1 ⟨1, 1⟩).replicateMsg ⟨.ok, ""⟩ 1] rfl false
    (.cons ⟨?_, rfl, rfl⟩ <| .cons ⟨?_, rfl⟩ <| .cons ⟨?_, rfl, rfl⟩ <| .nil _)
  all_goals
    rintro w ⟨⟩
    decide

/-- Without distinct operation ids the equivalence fails: request 2 is turned away although
nothing is known of it, because it comes with the operation id of the running request 1. -/
theorem not_register_iff_mayRegister :
    ¬ ∀ (rangeTimeLimit : ℤ) (events : List Event) (round : RetryableRound)
      (entryTime : RestartSafeCoarseTimePoint) (accepted : Bool) (rr : RetryableRequests)
      (w : WriteRequest), round.replicateMsg.replicateData = some w →
      Run (Step rangeTimeLimit) init (events ++ [.register round entryTime accepted]) rr →
      (accepted = true ↔ MayRegister (clientHistory w.clientId events) w) := by
  intro h
  have hrun := h 30 [.register (exampleRound 1 ⟨1, 1⟩) 0 true] (exampleRound 2 ⟨1, 1⟩) 0 false _
    ⟨⟨7, 7⟩, 2, 0⟩ rfl (.cons ⟨rfl, rfl⟩ <| .cons ⟨rfl, rfl⟩ <| .nil _)
  have hmay : MayRegister (clientHistory ⟨7, 7⟩ [.register (exampleRound 1 ⟨1, 1⟩) 0 true])
      ⟨⟨7, 7⟩, 2, 0⟩ := ⟨by decide, by decide, by decide⟩
  exact absurd (hrun.2 hmay) (by decide)

end RetryableRequests
