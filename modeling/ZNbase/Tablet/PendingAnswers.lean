import ZNbase.Tablet.TransactionDecision

/-!
# A pending transaction commits later

`GetStatus` answers `PENDING` with a time. If the transaction is committed later, by this leader or
by another one, then its commit time is above that time: a reader that has read at this time need
not look at the transaction again.

`Timely` has what is assumed of clocks and leases. The time of the answer is below the reading of
the clock, below the lease, and below the hybrid time of a commit that is appended already. The last
one is looked up through the request that is replicating, so the answer is right only as long as no
request is taken for another one that has failed (`FailsReplicating`): see
`not_pending_lt_commit`.
-/

open Option List HybridTime TransactionState ManagedTransactions

namespace StatusTablet

variable {ν ι τ : Type} [DecidableEq ν] [DecidableEq ι] [DecidableEq τ] {s s' : StatusTablet ν ι τ}
  {n : ν} {timeout : ℤ} {id : ι} {h : HybridTime}

/-- What is assumed of clocks and leases. A clock does not go back. The hybrid time of a record is
above what its leader has read before, and above the leases of earlier leaders. -/
def Timely (s : StatusTablet ν ι τ) : Event ν ι τ → Prop
  | .handle _ now => ∀ n ∈ s.leader, s.clock n ≤ now
  | .getStatus _ now htLease => (∀ n ∈ s.leader, s.clock n ≤ now) ∧ kMin < now ∧ kMin < htLease
  | .poll n _ now _ => s.clock n ≤ now
  | .append _ hybridTime => (∀ n ∈ s.leader, s.clock n < hybridTime) ∧ s.oldLease < hybridTime ∧
      isValid hybridTime
  | .commit _ now => ∀ n ∈ s.leader, s.clock n ≤ now
  | _ => True

instance (s : StatusTablet ν ι τ) (e : Event ν ι τ) : Decidable (s.Timely e) := by
  induction e using Event.casesOn <;> unfold Timely <;> infer_instance

/-! ## What a step does to the times -/

/-- What a step does to records, clocks and leases. -/
inductive TimeStep (s s' : StatusTablet ν ι τ) : Prop
  /-- Records can only get replicated, and the clock of the leader advances. -/
  | keep (leader : s'.leader = s.leader)
      (records : ∀ r ∈ s'.log ++ s'.pending, r ∈ s.log ++ s.pending)
        (pending : s'.pending ⊆ s.pending)
      (clock : ∀ n ∈ s.leader, s.clock n ≤ s'.clock n) (lease : s.lease ≤ s'.lease)
      (oldLease : s'.oldLease = s.oldLease)
  | append (n : ν) (record : StatusRecord ι τ) (leader : s.leader = some n)
      (leader' : s'.leader = some n) (log : s'.log = s.log)
        (pending : s'.pending = s.pending ++ [record])
      (clock : s.clock n < record.hybridTime) (clock' : s'.clock n = record.hybridTime)
      (above : s.oldLease < record.hybridTime) (valid : isValid record.hybridTime)
      (lease : s'.lease = s.lease) (oldLease : s'.oldLease = s.oldLease)
  | depose (leader' : s'.leader = none) (records : ∀ r ∈ s'.log, r ∈ s.log ++ s.pending)
      (pending : s'.pending = []) (lease : s.lease ≤ s'.oldLease)
        (oldLease : s.oldLease ≤ s'.oldLease)
  | elect (leader : s.leader = none) (log : s'.log = s.log) (pending : s'.pending = s.pending)
      (oldLease : s'.oldLease = s.oldLease)

omit [DecidableEq ν] [DecidableEq ι] [DecidableEq τ] in
/-- A step that leaves records and leases alone. -/
lemma TimeStep.of_eq (hlead : s'.leader = s.leader) (hlog : s'.log = s.log)
    (hpend : s'.pending = s.pending) (hclk : ∀ n ∈ s.leader, s.clock n ≤ s'.clock n)
    (hlease : s'.lease = s.lease) (hold : s'.oldLease = s.oldLease) : TimeStep s s' :=
  .keep hlead (by simp [hlog, hpend]) (by simp [hpend]) hclk hlease.ge hold

/-- The clock of the leader has passed the hybrid times of what it has appended. -/
def ClockInv (s : StatusTablet ν ι τ) : Prop :=
  (∀ n ∈ s.leader, ∀ r ∈ s.pending, kMin < r.hybridTime ∧ isValid r.hybridTime ∧
    r.hybridTime ≤ s.clock n) ∧
  (s.leader = none → s.pending = [])

omit [DecidableEq ν] [DecidableEq ι] [DecidableEq τ] in
/-- Every step keeps the invariant of the clocks. -/
lemma ClockInv.step (hinv : ClockInv s) (hstep : TimeStep s s') : ClockInv s' := by
  obtain ⟨hclocks, hidle⟩ := hinv
  cases hstep with
  | keep leader records pending clock lease oldLease =>
    refine ⟨fun n hn r hr => ?_, fun hnone => ?_⟩
    · rw [leader] at hn
      obtain ⟨hpos, hval, hle⟩ := hclocks n hn r (pending hr)
      exact ⟨hpos, hval, hle.trans (clock n hn)⟩
    · rw [leader] at hnone
      rw [hidle hnone] at pending
      exact subset_nil.1 pending
  | append n record leader leader' log pending clock clock' above valid lease oldLease =>
    refine ⟨fun n' hn r hr => ?_, fun hnone => ?_⟩
    · rw [leader'] at hn
      cases hn
      rw [pending] at hr
      rw [clock']
      -- the leader's clock is now at the time of the new record
      rcases mem_append.1 hr with hr | hr
      · obtain ⟨hpos, hval, hle⟩ := hclocks n leader r hr
        exact ⟨hpos, hval, hle.trans clock.le⟩
      · obtain rfl := mem_singleton.1 hr
        exact ⟨(kMin_le _).trans_lt above, valid, le_rfl⟩
    · rw [leader'] at hnone
      cases hnone
  | depose leader' records pending lease oldLease => exact ⟨by simp [pending], fun _ => pending⟩
  | elect leader log pending oldLease => simp [ClockInv, pending, hidle leader]

/-! ## After an answer -/

/-- Every commit of a transaction is above a time, also the ones that are yet to come. -/
structure Above (id : ι) (h : HybridTime) (s : StatusTablet ν ι τ) : Prop where
  records : ∀ r ∈ s.log ++ s.pending, r.state.transactionId = id → r.state.status = .committed →
    h < r.hybridTime
  later : h < s.oldLease ∨ ∃ n, s.leader = some n ∧ h < s.lease ∧ h < s.clock n

omit [DecidableEq ν] [DecidableEq ι] [DecidableEq τ] in
/-- Every step keeps the later commit above the answer. -/
lemma Above.step (habove : Above id h s) (hstep : TimeStep s s') : Above id h s' := by
  obtain ⟨hrecs, hlater⟩ := habove
  cases hstep with
  | keep leader records pending clock lease oldLease =>
    refine ⟨fun r hr => hrecs r (records r hr), ?_⟩
    rw [oldLease, leader]
    refine hlater.imp_right ?_
    rintro ⟨n, hn, hlease, hclk⟩
    exact ⟨n, hn, hlease.trans_le lease, hclk.trans_le (clock n hn)⟩
  | append n record leader leader' log pending clock clock' above valid lease oldLease =>
    -- the new record is above the leases of earlier leaders, and above the clock of this one
    have hlt : h < record.hybridTime := by
      rcases hlater with hold | ⟨n', hn', -, hclk⟩
      · exact hold.trans above
      · rw [leader] at hn'
        cases hn'
        exact hclk.trans clock
    refine ⟨fun r hr => ?_, ?_⟩
    · rw [log, pending, ← append_assoc] at hr
      rcases mem_append.1 hr with hr | hr
      · exact hrecs r hr
      · obtain rfl := mem_singleton.1 hr
        exact fun _ _ => hlt
    · rw [oldLease]
      refine hlater.imp_right ?_
      rintro ⟨-, -, hlease, -⟩
      exact ⟨n, leader', lease ▸ hlease, clock' ▸ hlt⟩
  | depose leader' records pending lease oldLease =>
    refine ⟨fun r hr => hrecs r (records r ?_), .inl ?_⟩
    · rwa [pending, append_nil] at hr
    · rcases hlater with hold | ⟨-, -, hlease, -⟩
      · exact hold.trans_le oldLease
      · exact hlease.trans_le lease
  | elect leader log pending oldLease =>
    refine ⟨by rwa [log, pending], .inl ?_⟩
    rw [oldLease]
    refine hlater.resolve_right ?_
    rintro ⟨n, hn, -⟩
    rw [leader] at hn
    cases hn

/-- The hybrid time of a pending record is found by its operation. -/
lemma Inv.hybridTimeOf_pending (hinv : Inv s) (hlead : s.leader = some n)
    {record : StatusRecord ι τ} (hrec : record ∈ s.pending) :
    s.hybridTimeOf record.operation = record.hybridTime := by
  unfold hybridTimeOf
  cases hfind : s.pending.find? fun r => r.operation = record.operation with
  | none =>
    have hno := find?_eq_none.1 hfind record hrec
    simp at hno
  | some found =>
    have hop : found.operation = record.operation := by simpa using find?_some hfind
    -- no two pending records are of one transaction
    have hone := hinv.countP_pending hlead record.state.transactionId
    rw [countP_eq_length_filter] at hone
    have hmem : ∀ r ∈ s.pending, r.state.transactionId = record.state.transactionId →
        r ∈ s.pending.filter fun r => r.state.transactionId = record.state.transactionId :=
      fun r hr hid => mem_filter.2 ⟨hr, by simpa using hid⟩
    have hfnd := hmem found (mem_of_find?_eq_some hfind) (by
      rw [StatusRecord.state, hop, StatusRecord.state])
    obtain ⟨x, hx⟩ :=
      length_eq_one_iff.1 (le_antisymm hone (length_pos_of_mem (hmem record hrec rfl)))
    have hrec' := hmem record hrec rfl
    rw [hx, mem_singleton] at hfnd hrec'
    rw [hfnd, hrec', map_some, getD_some]

/-- The time up to which a leader knows that a pending transaction is not committed. -/
lemma Inv.statusHt (hinv : Inv s) (hclk : ClockInv s) (hlead : s.leader = some n)
    {t : TransactionState ι τ} (ht : (s.replica n).managed id = some t) (hs : t.status = .pending)
    {now lease : HybridTime} (hnow : s.clock n ≤ now) (hpos : kMin < now)
    {status : TransactionStatus} (hr : t.getStatus now lease s.hybridTimeOf = some ⟨status, h⟩) :
    ∃ ht, h = decremented (min ht lease) ∧ kMin < ht ∧ ht ≤ now ∧
      ∀ r ∈ s.pending, r.state.transactionId = id → r.state.status = .committed →
        ht = r.hybridTime := by
  have hpend : ∀ r ∈ s.pending, r.state.transactionId = id → t.replicating = some r.operation ∧
      s.hybridTimeOf r.operation = r.hybridTime := by
    intro r hr hid
    obtain ⟨t', ht', hrepl, -⟩ := hinv.allows_pending hlead hr
    rw [hid, ht] at ht'
    cases ht'
    exact ⟨hrepl, hinv.hybridTimeOf_pending hlead hr⟩
  simp only [TransactionState.getStatus, hs] at hr
  obtain ⟨-, rfl⟩ := hr
  refine ⟨_, rfl, ?_⟩
  cases hrepl : t.replicating with
  | none =>
    refine ⟨hpos, le_rfl, fun r hr hid _ => ?_⟩
    rw [(hpend r hr hid).1] at hrepl
    cases hrepl
  | some op =>
    dsimp only
    split_ifs with hcond
    · -- a hybrid time that is valid is the one of a pending record
      obtain ⟨record, hrec, hrec'⟩ : ∃ record ∈ s.pending,
          record.hybridTime = s.hybridTimeOf op := by
        have hval := hcond.2
        unfold hybridTimeOf at hval ⊢
        cases hfind : s.pending.find? fun r => r.operation = op with
        | none => simp [hfind, isValid] at hval
        | some record => exact ⟨record, mem_of_find?_eq_some hfind, rfl⟩
      obtain ⟨hpos', -, hle⟩ := hclk.1 n hlead record hrec
      rw [hrec'] at hpos' hle
      refine ⟨hpos', hle.trans hnow, fun r hr hid _ => ?_⟩
      obtain ⟨hop, hht⟩ := hpend r hr hid
      rw [hrepl] at hop
      rw [Option.some.inj hop, hht]
    · refine ⟨hpos, le_rfl, fun r hr hid hcom => (hcond ?_).elim⟩
      obtain ⟨hop, hht⟩ := hpend r hr hid
      rw [hrepl] at hop
      rw [Option.some.inj hop, hht]
      exact ⟨.inl hcom, (hclk.1 n hlead r hr).2.1⟩

/-- After `PENDING` was answered every commit is above the time of the answer. -/
lemma Inv.above (hinv : Inv s) (hclk : ClockInv s) {ids : List ι} {now htLease : HybridTime}
    {answers : List (StatusAnswer ι)} (htimely : s.Timely (.getStatus ids now htLease))
    (hstep : s.step timeout (.getStatus ids now htLease) = some (s', answers))
    {a : StatusAnswer ι} (ha : a ∈ answers) (hr : a.result = some ⟨.pending, h⟩) :
    Above a.transactionId h s' := by
  obtain ⟨n, hlead, hstep⟩ := map_eq_some_iff.1 hstep
  cases hstep
  obtain ⟨id, -, rfl⟩ := mem_map.1 ha
  have hagr := hinv.agrees_leader hlead id
  cases ht : (s.replica n).managed id with
  | none =>
    rw [ht] at hr
    cases hr
  | some t =>
    rw [ht] at hr hagr
    have hs : t.status = .pending := by
      refine (hinv.managed n id t ht).2.1.status.resolve_right fun hs => ?_
      simp [TransactionState.getStatus, hs] at hr
    obtain ⟨statusHt, rfl, hpos, hle, hcommits⟩ :=
      hinv.statusHt hclk hlead ht hs (htimely.1 n hlead) htimely.2.1 hr
    have hmin : kMin < min statusHt (s.htLeaseExpiration htLease) :=
      lt_min hpos (htimely.2.2.trans_le (le_max_left _ _))
    have hlt := decremented_lt hmin
    refine ⟨fun r hr hid hcom => ?_, .inr ⟨n, hlead, ?_, ?_⟩⟩
    · rcases mem_append.1 hr with hr | hr
      · -- a replicated commit would not leave the transaction pending
        exfalso
        rcases (hinv.legal id).decision_of_committed hr hid hcom with hd | hd <;>
          rw [hd] at hagr
        · rw [hagr.1] at hs
          cases hs
        · cases hagr
      · rw [← hcommits r hr hid hcom]
        exact hlt.trans_le (min_le_left _ _)
    · exact hlt.trans_le ((min_le_right _ _).trans (le_max_right _ _))
    · have hclk' : (s.readClock n now).clock n = now := Function.update_self ..
      rw [hclk']
      exact hlt.trans_le ((min_le_left _ _).trans hle)

end StatusTablet
