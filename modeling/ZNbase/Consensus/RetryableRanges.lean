import ZNbase.Consensus.RetryableRequestsOnce

/-!
# The replicated ranges

What the ranges of each client are over every run of `RetryableRequests`, whatever operation ids the
calls come with and whenever old ranges are erased.

- `Recorded` keeps beside the containers the operation id under which an id was added to the ranges
  last. The `minOpId` of a range is not above that of any id in it.
- Two ranges never share their `lastId` or their `minOpId`, so both indexes list each range once.
-/

open List RangeList ClientRetryableRequests ReplicatedRetryableRequestRange

namespace RetryableRequests

variable {c c' : ClientRetryableRequests} {opIds : RetryableRequestId → OpId} {w : WriteRequest}
  {limit time : ℤ} {id : RetryableRequestId} {opId : OpId}

/-! ## Runs with operation ids -/

/-- The containers, and the operation ids under which the ids of each client were added last. -/
structure Recorded where
  requests : RetryableRequests := init
  opIds : ClientId → RetryableRequestId → OpId := fun _ _ => OpId.min0

/-- Whether a call adds the id of its request to the ranges of its client. -/
def Event.adds (c : ClientRetryableRequests) (w : WriteRequest) : Event → Bool
  | .register _ _ _ => false
  | .replicationFinished _ status _ =>
    status.code = .ok && c.running.any (·.requestId = w.requestId)
  | .bootstrap _ _ => !c.running.any (·.requestId = w.requestId) &&
      !(c.cleanupReplicatedRequests w.minRunningRequestId).isReplicated w.requestId

/-- The operation ids of a client after a call. -/
def Event.record (e : Event) (s : Recorded) (client : ClientId) : RetryableRequestId → OpId :=
  match e.msg.replicateData with
  | none => s.opIds client
  | some w =>
    if client = w.clientId ∧ e.adds (s.requests.clients client) w then
      Function.update (s.opIds client) w.requestId e.msg.id
    else s.opIds client

/-- A call, or the expiry of old ranges. -/
inductive Recorded.Step (limit : ℤ) (s : Recorded) : Option Event → Recorded → Prop
  | call {e : Event} {rr : RetryableRequests} (h : RetryableRequests.Step limit s.requests e rr) :
      Step limit s (some e) ⟨rr, e.record s⟩
  | expire (cleanStart : RestartSafeCoarseTimePoint) (forgotten : ClientId → Bool) :
      Step limit s none
        { s with requests := s.requests.cleanExpiredReplicated cleanStart forgotten }

/-! ## The invariant -/

/-- The ranges of a client are well-formed, have no running id, and come after no operation of
theirs. -/
structure RangesInv (c : ClientRetryableRequests) (opIds : RetryableRequestId → OpId) : Prop where
  wellFormed : WellFormed c.replicated
  running : ∀ q ∈ c.running, ¬ CoversId c.replicated q.requestId
  minOpId : ∀ r ∈ c.replicated, ∀ id, r.firstId ≤ id ∧ id ≤ r.lastId → r.minOpId ≤ opIds id

/-- Ranges are erased or cut. -/
lemma RangesInv.shrink (h : RangesInv c opIds) (hrun : c'.running = c.running)
    (hwf : WellFormed c'.replicated) (hsub : ∀ r ∈ c'.replicated, ∃ s ∈ c.replicated,
      s.firstId ≤ r.firstId ∧ s.lastId = r.lastId ∧ s.minOpId = r.minOpId) :
        RangesInv c' opIds := by
  refine ⟨hwf, ?_, ?_⟩
  · rintro q hq ⟨r, hr, hle, hle'⟩
    obtain ⟨s, hs, hfirst, hlast, -⟩ := hsub r hr
    exact h.running q (hrun ▸ hq) ⟨s, hs, hfirst.trans hle, hlast ▸ hle'⟩
  · intro r hr id hid
    obtain ⟨s, hs, hfirst, hlast, hop⟩ := hsub r hr
    exact hop ▸ h.minOpId s hs id ⟨hfirst.trans hid.1, hlast ▸ hid.2⟩

/-- A cleanup only takes ranges out. -/
lemma RangesInv.cleanup (h : RangesInv c opIds) (m : RetryableRequestId) :
    RangesInv (c.cleanupReplicatedRequests m) opIds := by
  refine h.shrink (running_cleanupReplicatedRequests c m)
    (cleanupReplicatedRequests_spec h.wellFormed).1 ?_
  have hmem : ∀ s ∈ fromId c.replicated m, s ∈ c.replicated := fun s hs =>
    (dropWhile_sublist _).subset hs
  unfold cleanupReplicatedRequests
  split_ifs
  · dsimp only
    split
    · simp
    · rename_i s after hfrom
      rw [hfrom] at hmem
      intro r hr
      split_ifs at hr with htrim
      · rcases mem_cons.1 hr with rfl | hr
        · exact ⟨s, hmem s (by simp), htrim.le, rfl, rfl⟩
        · exact ⟨r, hmem r (by simp [hr]), le_rfl, rfl, rfl⟩
      · exact ⟨r, hmem r hr, le_rfl, rfl, rfl⟩
  · exact fun r hr => ⟨r, hr, le_rfl, rfl, rfl⟩

/-- So does the expiry of ranges. -/
lemma RangesInv.expire (h : RangesInv c opIds) (cleanStart : RestartSafeCoarseTimePoint) :
    RangesInv (c.cleanExpiredReplicated cleanStart) opIds :=
  h.shrink rfl (h.wellFormed.sublist filter_sublist) fun r hr =>
    ⟨r, filter_sublist.subset hr, le_rfl, rfl, rfl⟩

/-- A request that is not running any more is added to the ranges. -/
lemma RangesInv.add (h : RangesInv c opIds) (hnew : ¬ CoversId c.replicated id)
    (hrun : ∀ q ∈ c.running, q.requestId ≠ id) :
    RangesInv { c with replicated := addReplicated limit c.replicated opId id time }
      (Function.update opIds id opId) := by
  have hgrow := growsBy_addReplicated limit time opId h.wellFormed hnew
  refine ⟨hgrow.wellFormed, fun q hq hcov => ?_, fun r hr x hx => ?_⟩
  · exact (hgrow.covers hcov).elim (h.running q hq) (hrun q hq)
  · rcases hgrow.minOpId r hr x hx with ⟨rfl, hle⟩ | ⟨s, hs, hsx, hle⟩
    · rwa [Function.update_self]
    · -- the id that is added is in none of the old ranges
      have hne : x ≠ id := fun heq => hnew (heq ▸ ⟨s, hs, hsx⟩)
      rw [Function.update_of_ne hne]
      exact hle.trans (h.minOpId s hs x hsx)

/-- What an event does to its client keeps the ranges in order. -/
lemma RangesInv.onClient (h : RangesInv c opIds) (e : Event) :
    RangesInv (e.onClient limit c w)
      (if e.adds c w then Function.update opIds w.requestId e.msg.id else opIds) := by
  have hclean := h.cleanup w.minRunningRequestId
  cases e with
  | register round entryTime accepted =>
    simp only [Event.onClient, Event.adds, ClientRetryableRequests.register,
      Bool.false_eq_true, if_false]
    split_ifs with hlow hrep
    · exact hclean
    · exact hclean
    · -- the request is running, and is in no range
      obtain ⟨heq, -, hids⟩ :=
        @emplaceRunning_fst (c.cleanupReplicatedRequests w.minRunningRequestId)
        ⟨w.requestId, round.replicateMsg.id, entryTime, []⟩ round
      refine ⟨heq ▸ hclean.wellFormed, fun q hq => ?_, heq ▸ hclean.minOpId⟩
      rw [heq]
      rcases (hids q.requestId).1 ⟨q, hq, rfl⟩ with ⟨-, hid⟩ | ⟨q', hq', hid⟩
      · rwa [hid, ← isReplicated_iff hclean.wellFormed]
      · exact hid ▸ hclean.running q' hq'
  | replicationFinished msg status leaderTerm =>
    simp only [Event.onClient, Event.adds, ClientRetryableRequests.replicationFinished]
    split
    · rename_i hnone
      have hany : c.running.any (·.requestId = w.requestId) = false := by simpa using hnone
      simpa [hany] using h
    · rename_i q hfind
      have hq := mem_of_find?_eq_some hfind
      have hid : q.requestId = w.requestId := by simpa using find?_some hfind
      have hany : c.running.any (·.requestId = w.requestId) = true :=
        any_eq_true.2 ⟨q, hq, decide_eq_true hid⟩
      -- the request is no longer running, and its id can be added
      have hf :
          RangesInv { c with running := c.running.filter (·.requestId ≠ w.requestId) } opIds :=
        ⟨h.wellFormed, fun q hq => h.running q (mem_filter.1 hq).1, h.minOpId⟩
      by_cases hok : status.code = .ok
      · simp only [hok, hany, if_true, decide_true, Bool.and_self]
        exact hf.add (hid ▸ h.running q hq) fun q hq => of_decide_eq_true (mem_filter.1 hq).2
      · simpa [hok] using hf
  | bootstrap msg entryTime =>
    simp only [Event.onClient, Event.adds, ClientRetryableRequests.bootstrap]
    by_cases hany : c.running.any (·.requestId = w.requestId)
    · simpa [hany] using h
    rw [if_neg hany]
    by_cases hold :
      CoversId (c.cleanupReplicatedRequests w.minRunningRequestId).replicated w.requestId
    · -- the id was added before
      rw [addReplicated_of_covers hclean.wellFormed hold]
      simp only [(isReplicated_iff hclean.wellFormed).2 hold, Bool.not_true,
        Bool.and_false, if_false, Bool.false_eq_true]
      exact hclean
    · have hrep := (isReplicated_iff hclean.wellFormed).not.2 hold
      simp only [hany, hrep, Bool.not_false, Bool.and_self, if_true]
      refine hclean.add hold ?_
      rw [running_cleanupReplicatedRequests]
      simpa using hany

/-- Every step keeps the ranges of all clients in order. -/
lemma Recorded.Step.inv {s s' : Recorded} {e : Option Event} (hstep : s.Step limit e s')
    (h : ∀ client, RangesInv (s.requests.clients client) (s.opIds client)) (client : ClientId) :
    RangesInv (s'.requests.clients client) (s'.opIds client) := by
  have hc := h client
  cases hstep with
  | call hcall =>
    rename_i e rr
    simp only [hcall.clients_eq, Event.record]
    cases e.msg.replicateData with
    | none => exact hc
    | some w =>
      dsimp only
      by_cases hclient : client = w.clientId
      · subst hclient
        simpa using hc.onClient e
      · simpa [hclient] using hc
  | expire cleanStart forgotten =>
    simp only [RetryableRequests.cleanExpiredReplicated]
    split_ifs
    · exact ⟨wellFormed_nil, by simp, by simp⟩
    · exact hc.expire cleanStart

/-- After every run the ranges of each client are not empty, disjoint and in the order of their ids,
no running id is in them, the `minOpId` of a range is not above the operation id of an id in it, and
the index by `minOpId` lists the same ranges, each once. -/
theorem replicated_ranges {events : List (Option Event)} {s : Recorded}
    (hrun : Run (Recorded.Step limit) {} events s) (client : ClientId) :
    let c := s.requests.clients client
    (∀ r ∈ c.replicated, r.firstId ≤ r.lastId) ∧
      (c.replicated.Pairwise fun r s => r.lastId < s.firstId) ∧
      (∀ q ∈ c.running, ¬ CoversId c.replicated q.requestId) ∧
      (∀ r ∈ c.replicated, ∀ id, r.firstId ≤ id ∧ id ≤ r.lastId → r.minOpId ≤ s.opIds client id) ∧
      (byMinOpId c.replicated).Perm c.replicated ∧
      (byMinOpId c.replicated).Pairwise fun r s => r.minOpId < s.minOpId := by
  have h :=
    hrun.invariant (I := fun s => ∀ client, RangesInv (s.requests.clients client) (s.opIds client))
    (fun _ _ _ hI hs => hs.inv hI)
    (fun _ => ⟨wellFormed_nil, by simp [init], by simp [init]⟩) client
  have hperm := mergeSort_perm (s.requests.clients client).replicated fun r s =>
    decide (r.minOpId ≤ s.minOpId)
  refine ⟨h.wellFormed.separated.nonempty, h.wellFormed.separated.ordered, h.running,
    h.minOpId, hperm, ?_⟩
  have hsort :=
    @pairwise_mergeSort _
    (fun r s : ReplicatedRetryableRequestRange => decide (r.minOpId ≤ s.minOpId))
    (fun r s t hrs hst => decide_eq_true ((of_decide_eq_true hrs).trans (of_decide_eq_true hst)))
    (fun r s => by simpa using le_total r.minOpId s.minOpId) (s.requests.clients client).replicated
  have hne := (hperm.pairwise_iff fun {_ _} hne => Ne.symm hne).2 h.wellFormed.distinct
  exact (hsort.and hne).imp fun {_ _} ⟨hle, hne⟩ => lt_of_le_of_ne (of_decide_eq_true hle) hne

/-- The requests 1 and 2 are in one range, with the operation id of the first. -/
theorem replicated_ranges_two : ∃ s : Recorded,
    (s.requests.clients ⟨7, 7⟩).replicated = [⟨1, 2, ⟨1, 1⟩, 0, 0⟩] ∧
      ⟨1, 1⟩ ≤ s.opIds ⟨7, 7⟩ 2 := by
  have hrun : Run (Recorded.Step 30) {} _ _ :=
    .cons (.call (e := .bootstrap (exampleRound 1 ⟨1, 1⟩).replicateMsg 0) rfl) <|
      .cons (.call (e := .bootstrap (exampleRound 2 ⟨1, 2⟩).replicateMsg 0) rfl) <| .nil _
  exact ⟨_, rfl,
    (replicated_ranges hrun ⟨7, 7⟩).2.2.2.1 ⟨1, 2, ⟨1, 1⟩, 0, 0⟩ (.head _) 2 (by decide)⟩

end RetryableRequests
