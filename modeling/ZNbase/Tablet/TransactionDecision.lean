import ZNbase.Tablet.StatusReplicaInvariant

/-!
# The decision about a transaction is final

In a run of the replicas of a status tablet a transaction that was committed stays committed, with
its commit time, until all involved tablets have confirmed, and one that was aborted stays aborted.

`ProcessAborted` takes the request that has failed for the one that is replicating. With
`FailsReplicating` it is the one, or none is, and then every answer is what the log says
(`AnswerOk`). Without it the answers can contradict each other: see `not_decision_final`.
-/

open Option Function List HybridTime TransactionState ManagedTransactions StatusReplica
  ManagedTransactions List.Subset

namespace StatusTablet

variable {ν ι τ : Type} [DecidableEq ν] [DecidableEq ι] [DecidableEq τ] {s s' : StatusTablet ν ι τ}
  {n : ν} {timeout : ℤ} {R : StatusReplica ι τ}

/-- What a replica has as a leader. -/
def leadOf (s : StatusTablet ν ι τ) (n : ν) : Option (List (StatusRecord ι τ)) :=
  if s.leader = some n then some s.pending else none

/-- What holds in every state of a run. -/
structure Inv (s : StatusTablet ν ι τ) : Prop where
  replicas : ∀ id n, ReplicaInv id s.log s.confirmed s.nextNumber s.term (s.leadOf n) (s.replica n)
  legal : ∀ id, Legal id s.log
  created : ∀ id, id ∉ s.created → (∀ n, (s.replica n).managed id = none) ∧
    ∀ record ∈ s.log, record.state.transactionId ≠ id
  applied : ∀ id ht tablets, decision id s.log = .applied ht tablets →
    ∀ tablet ∈ tablets, (id, tablet) ∈ s.confirmed
  idle : s.leader = none → s.pending = []

/-- An answer says what the log says. -/
def AnswerOk (d : Decision τ) : Option TransactionStatusResult → Prop
  | some ⟨.aborted, _⟩ => ∀ ht tablets, d ≠ .committed ht tablets
  | some ⟨.committed, t⟩ => (∃ tablets, d = .committed t tablets ∨ d = .applied t tablets) ∨
      (d = .undecided ∧ t = kMax)
  | _ => True

/-- A request that was submitted and fails is the one that its transaction replicates, or none
is. -/
def FailsReplicating (s : StatusTablet ν ι τ) : Event ν ι τ → Prop
  | .fail n number => ∀ x ∈ (s.replica n).submitted, x.2.number = number →
      ∀ r ∈ ((s.replica n).managed x.2.request.transactionId).bind (·.replicating),
        r.number = number
  | _ => True

instance (s : StatusTablet ν ι τ) (e : Event ν ι τ) : Decidable (s.FailsReplicating e) := by
  cases e <;> (unfold FailsReplicating; infer_instance)

/-- The managed transactions of every replica are in order. -/
lemma Inv.managed (h : Inv s) (n : ν) : ManagedTransactions.Inv s.confirmed (s.replica n).managed :=
  fun id t ht => (h.replicas id n).inv t ht

omit [DecidableEq ι] [DecidableEq τ] in
/-- Who leads is decided by the leader and its pending records. -/
lemma leadOf_eq (hlead : s'.leader = s.leader)
    (hpend : s'.pending = s.pending) (n : ν) : s'.leadOf n = s.leadOf n := by
  rw [leadOf, hlead, hpend, leadOf]

/-- A step of one replica that leaves the log and the leader alone. -/
lemma Inv.updateReplica (h : Inv s) (hlog : s'.log = s.log) (hpend : s'.pending = s.pending)
    (hlead : s'.leader = s.leader) (hterm : s'.term = s.term) (hnext : s.nextNumber ≤ s'.nextNumber)
    (hc : s.confirmed ⊆ s'.confirmed) (hrepl : s'.replica = update s.replica n R)
    (hR : ∀ id, ReplicaInv id s.log s'.confirmed s'.nextNumber s.term (s.leadOf n) R)
    (hcre : ∀ id, id ∉ s'.created → id ∉ s.created ∧ R.managed id = none) : Inv s' := by
  refine ⟨fun id n' => ?_, hlog ▸ h.legal, fun id hid => ⟨fun n' => ?_, ?_⟩,
    fun id ht tablets hd tablet htab => ?_, fun hl => ?_⟩
  · rw [hlog, hterm, leadOf_eq hlead hpend, hrepl]
    by_cases hn : n' = n
    · subst hn
      rw [update_self]
      exact hR id
    · rw [update_of_ne hn]
      exact (h.replicas id n').mono_next hc hnext
  · rw [hrepl]
    by_cases hn : n' = n
    · subst hn
      rw [update_self]
      exact (hcre id hid).2
    · rw [update_of_ne hn]
      exact (h.created id (hcre id hid).1).1 n'
  · rw [hlog]
    exact (h.created id (hcre id hid).1).2
  · rw [hlog] at hd
    exact hc (h.applied id ht tablets hd tablet htab)
  · rw [hpend]
    exact h.idle (hlead ▸ hl)

variable {c : List (ι × τ)} {m m' : ManagedTransactions ι τ}
  {acts acts' : PostponedLeaderActions ι τ} {leading : Bool} {answers : List (StatusAnswer ι)}
  {now : HybridTime} {record : StatusRecord ι τ} {d : Decision τ} {request : TransactionStatePB ι τ}
  {t : TransactionState ι τ}

omit [DecidableEq τ] in
/-- The requests that a call has submitted all belong to a transaction that has none, if it is not
the call of a leader. -/
lemma updates_of_keeps (h : Keeps c m m' acts acts') (hupds : acts.updates = []) :
    ∀ id, (m id = none ∧ m' id = none ∧ requestsOf id acts'.updates = []) ∨ ∃ t t', m id = some t ∧
      m' id = some t' ∧
        Moves c acts.leader t t' acts.nextNumber acts'.nextNumber
          (requestsOf id acts'.updates) := by
  obtain ⟨new, hnew, hmoves⟩ := h.moves
  rw [hupds] at hnew
  subst hnew
  exact hmoves

omit [DecidableEq τ] in
/-- A call on a replica that does not lead submits nothing. -/
lemma updates_eq_nil (h : Keeps c m m' acts acts')
    (hupds : acts.updates = []) (hlead : acts.leader = false) : acts'.updates = [] := by
  refine eq_nil_iff_forall_not_mem.2 fun r hr => ?_
  have hmem : r ∈ requestsOf r.request.transactionId acts'.updates :=
    mem_filter.2 ⟨hr, by simp⟩
  rcases updates_of_keeps h hupds r.request.transactionId with ⟨-, -, hnone⟩ | ⟨t, t', -, -, hmove⟩
  · exact ne_nil_of_mem hmem hnone
  · rcases hmove.submits with hnone | ⟨-, -, -, -, hl⟩
    · exact ne_nil_of_mem hmem hnone
    · rw [hlead] at hl
      cases hl

/-- What the calls of a replica start with. -/
def startActions (s : StatusTablet ν ι τ) (leading : Bool) (next : ℕ) :
    PostponedLeaderActions ι τ :=
  { leaderTerm := if leading then some s.term else none, nextNumber := next }

omit [DecidableEq ν] [DecidableEq ι] [DecidableEq τ] in
lemma startActions_leader (s : StatusTablet ν ι τ) (leading : Bool) (next : ℕ) :
    (s.startActions leading next).leader = leading := by
  cases leading <;> rfl

/-- A call that keeps what is replicating. The next number may be above that of the state, if the
call is for a request that has taken it. -/
lemma Inv.keeps (h : Inv s)
    (hk : Keeps s.confirmed (s.replica n).managed m (s.startActions leading s.nextNumber) acts') :
    (∀ id, ReplicaInv id s.log s.confirmed acts'.nextNumber s.term (s.leadOf n)
      { s.replica n with
        managed := m
        submitted := (s.replica n).submitted ++
          if acts'.leader then acts'.updates.map (s.term, ·) else [] }) ∧
    ∀ id, (s.replica n).managed id = none → m id = none := by
  have hmoves := updates_of_keeps hk rfl
  have hsubm : (if acts'.leader then acts'.updates.map (s.term, ·) else []) =
      acts'.updates.map (s.term, ·) := by
    have hl : acts'.leader = leading := by
      rw [PostponedLeaderActions.leader, hk.leaderTerm]
      exact startActions_leader s leading _
    rw [hl]
    cases leading with
    | true => rfl
    | false => simp [updates_eq_nil hk rfl rfl]
  rw [hsubm]
  refine ⟨fun id => (h.replicas id n).keeps hk.next (hmoves id), fun id hnone => ?_⟩
  rcases hmoves id with ⟨-, hm, -⟩ | ⟨t, -, ht, -⟩
  · exact hm
  · rw [hnone] at ht
    cases ht

/-- The clocks are not part of the invariant. -/
lemma Inv.readClock (h : Inv s) (n : ν) (now : HybridTime) : Inv (s.readClock n now) := { h with }

variable
  {f : ManagedTransactions ι τ → PostponedLeaderActions ι τ →
    ManagedTransactions ι τ × PostponedLeaderActions ι τ}
  {ids : List ι} {number : ℕ} {ht : HybridTime} {tablets : List τ}

/-- A call that keeps what is replicating, with what it has postponed. It may be for a request that
has taken a number before. -/
lemma Inv.call_of_keeps (h : Inv s) {next : ℕ} (hk : Keeps s.confirmed (s.replica n).managed
      (f (s.replica n).managed (s.startActions leading next)).1
      (s.startActions leading s.nextNumber) acts')
    (hacts : (f (s.replica n).managed (s.startActions leading next)).2 = { acts' with answers }) :
    Inv (call { s with nextNumber := next } n leading f).1 := by
  obtain ⟨hR, hnone⟩ := h.keeps hk
  rw [startActions] at hacts
  refine h.updateReplica rfl rfl rfl rfl ?_ (refl _) rfl (fun id => ?_)
    fun id hid => ⟨hid, hnone id ((h.created id hid).1 n)⟩
  · simp only [call]
    rw [hacts]
    exact hk.next
  · simp only [call]
    rw [hacts]
    exact hR id

/-- A poll. -/
lemma Inv.poll (h : Inv s) (hstep : s.step timeout (.poll n leading now ids) = some (s', answers)) :
    Inv s' ∧ answers = [] := by
  simp only [step] at hstep
  split_ifs at hstep with hleading
  have hk := ManagedTransactions.Keeps.poll (s.startActions leading s.nextNumber) timeout now ids
    (h.managed n)
  cases hstep
  exact ⟨(h.readClock n now).call_of_keeps (f := fun m acts => m.poll timeout now ids acts) hk rfl,
    hk.answers⟩

/-- A replica restarts and loses what it has in memory. -/
lemma Inv.restart (h : Inv s) (hstep : s.step timeout (.restart n) = some (s', answers)) :
    Inv s' ∧ answers = [] := by
  simp only [step] at hstep
  split_ifs at hstep with hlead
  cases hstep
  refine ⟨h.updateReplica rfl rfl rfl rfl le_rfl (refl _) rfl (fun id => ?_)
    fun id hid => ⟨hid, rfl⟩, rfl⟩
  rw [leadOf, if_neg hlead]
  refine ⟨Nat.zero_le _, ?_, by simp, by simp, ?_, ?_, by simp, by simp, by simp⟩
  · exact trivial
  all_goals simp [places, queueOf, submittedOf, pendingOf, requestsOf, numbered]

/-- A replica becomes the leader. -/
lemma Inv.elect (h : Inv s) (hstep : s.step timeout (.elect n) = some (s', answers)) :
    Inv s' ∧ answers = [] := by
  simp only [step] at hstep
  split_ifs at hstep with hready
  obtain ⟨hleader, happl, hlost⟩ := hready
  cases hstep
  have hlead : ∀ n', s.leadOf n' = none := fun n' => by simp [leadOf, hleader]
  refine ⟨⟨fun id n' => ?_, h.legal, h.created, h.applied, by simp⟩, rfl⟩
  have hR := h.replicas id n'
  rw [hlead] at hR
  by_cases hn : n' = n
  · subst hn
    -- it starts without pending records, its whole log applied
    have hself : leadOf { s with leader := some n', term := s.term + 1 } n' = some [] := by
      simp [leadOf, h.idle hleader]
    rw [hself]
    exact hR.elect happl hlost
  · have hoth : leadOf { s with leader := some n, term := s.term + 1 } n' = none := by
      simp [leadOf, Ne.symm hn]
    rw [hoth]
    exact hR.mono (prefix_refl _) (refl _) le_rfl (Nat.le_succ _)

omit [DecidableEq ι] [DecidableEq τ] in
/-- The leader leads with the pending records. -/
lemma leadOf_self (h : s.leader = some n) : s.leadOf n = some s.pending := by
  rw [leadOf, if_pos h]

omit [DecidableEq ι] [DecidableEq τ] in
/-- No other replica leads. -/
lemma leadOf_of_ne {n' : ν} (h : s.leader = some n) (hne : n' ≠ n) : s.leadOf n' = none := by
  rw [leadOf, if_neg]
  rw [h]
  exact fun heq => hne (Option.some.inj heq).symm

/-- What the leader has for a transaction is what the log says. -/
lemma Inv.agrees_leader (h : Inv s) (hlead : s.leader = some n) (id : ι) :
    Agrees (decision id s.log) ((s.replica n).managed id) := by
  have hR := h.replicas id n
  have hagr := hR.agrees
  rwa [hR.applied_eq (by rw [leadOf_self hlead]; rfl), take_length] at hagr

/-- A step of the leader, which the other replicas do not notice. -/
lemma Inv.updateLeader (h : Inv s) (hlead : s.leader = some n)
    (hlead' : s'.leader = some n ∨ s'.leader = none ∧ s'.pending = []) (hlog : s.log <+: s'.log)
    (hterm : s'.term = s.term) (hnext : s.nextNumber ≤ s'.nextNumber)
    (hcre : s'.created = s.created) (hc : s'.confirmed = s.confirmed)
    (hrepl : s'.replica = update s.replica n R)
    (hR : ∀ id, ReplicaInv id s'.log s.confirmed s'.nextNumber s.term (s'.leadOf n) R)
    (hlegal : ∀ id, Legal id s'.log)
    (hnone : ∀ id, (s.replica n).managed id = none →
      (∀ record ∈ s.log, record.state.transactionId ≠ id) →
      R.managed id = none ∧ ∀ record ∈ s'.log, record.state.transactionId ≠ id)
    (happl : ∀ id ht tablets, decision id s'.log = .applied ht tablets →
      ∀ tablet ∈ tablets, (id, tablet) ∈ s.confirmed) : Inv s' := by
  refine ⟨fun id n' => ?_, hlegal, fun id hid => ?_, hc ▸ happl, fun hl => ?_⟩
  · rw [hterm, hc, hrepl]
    by_cases hn : n' = n
    · subst hn
      rw [update_self]
      exact hR id
    rw [update_of_ne hn]
    -- no other replica leads
    have hoth : s'.leadOf n' = none := by
      rw [leadOf, if_neg]
      rcases hlead' with hl | ⟨hl, -⟩ <;> rw [hl]
      · exact fun heq => hn (Option.some.inj heq).symm
      · simp
    have hR' := h.replicas id n'
    rw [leadOf_of_ne hlead hn] at hR'
    rw [hoth]
    exact hR'.mono hlog (refl _) hnext le_rfl
  · rw [hcre] at hid
    obtain ⟨hman, hrecs⟩ := h.created id hid
    obtain ⟨hR', hrecs'⟩ := hnone id (hman n) hrecs
    refine ⟨fun n' => ?_, hrecs'⟩
    rw [hrepl]
    by_cases hn : n' = n
    · subst hn
      rwa [update_self]
    · rw [update_of_ne hn]
      exact hman n'
  · rcases hlead' with hl' | ⟨-, hpend⟩
    · rw [hl] at hl'
      cases hl'
    · exact hpend

/-- A request that was submitted is appended to the log. -/
lemma Inv.append (h : Inv s) {hybridTime : HybridTime}
    (hstep : s.step timeout (.append number hybridTime) = some (s', answers)) :
    Inv s' ∧ answers = [] := by
  obtain ⟨n, hlead, hstep⟩ := bind_eq_some_iff.1 hstep
  obtain ⟨x, hx, hstep⟩ := bind_eq_some_iff.1 hstep
  split_ifs at hstep with htime
  cases hstep
  have hmem := mem_of_find?_eq_some hx
  have hterm : x.1 = s.term := by
    have hfnd := find?_some hx
    simp only [decide_eq_true_eq] at hfnd
    exact hfnd.1
  refine ⟨h.updateLeader hlead (.inl hlead) (prefix_refl _) rfl le_rfl rfl rfl rfl
    (fun id => ?_) h.legal (fun id hnone hrecs => ⟨hnone, hrecs⟩) h.applied, rfl⟩
  have hR := h.replicas id n
  rw [leadOf_self hlead] at hR
  rw [leadOf_self (by exact hlead)]
  exact hR.append hmem hterm hybridTime

/-- A pending record was live, and can follow on the log. -/
lemma Inv.allows_pending (h : Inv s) (hlead : s.leader = some n) (hrec : record ∈ s.pending) :
    ∃ t, (s.replica n).managed record.state.transactionId = some t ∧
      t.replicating = some record.operation ∧
      (decision record.state.transactionId s.log).Allows record.state.status := by
  have hR := h.replicas record.state.transactionId n
  rw [leadOf_self hlead] at hR
  refine hR.live _ rfl record.operation (mem_append_right _ ?_)
  exact mem_filter.2 ⟨mem_map_of_mem hrec, by simp [StatusRecord.state]⟩

/-- At most one record of a transaction is pending. -/
lemma Inv.countP_pending (h : Inv s) (hlead : s.leader = some n) (id : ι) :
    s.pending.countP (fun record => record.state.transactionId = id) ≤ 1 := by
  have hR := h.replicas id n
  rw [leadOf_self hlead] at hR
  have hlen : s.pending.countP fun record =>
      record.state.transactionId = id = (pendingOf id s.pending).length := by
    rw [pendingOf, requestsOf, ← countP_eq_length_filter, countP_map]
    rfl
  -- all of them are the one that the transaction replicates
  have hsame : ∀ r ∈ pendingOf id s.pending, ∀ r' ∈ pendingOf id s.pending, r = r' := by
    intro r hr r' hr'
    obtain ⟨t, ht, hrepl, -⟩ := hR.live _ rfl r (mem_append_right _ hr)
    obtain ⟨t', ht', hrepl', -⟩ := hR.live _ rfl r' (mem_append_right _ hr')
    rw [ht] at ht'
    cases ht'
    rw [hrepl] at hrepl'
    exact Option.some.inj hrepl'
  rw [hlen]
  cases hl : pendingOf id s.pending with
  | nil => exact Nat.zero_le _
  | cons r l =>
    rw [hl] at hsame
    have hnum := hR.numbers r.number
    simp only [getD_some, places, numbered_append, hl] at hnum
    have hall : numbered (r :: l) r.number = (r :: l).length :=
      countP_eq_length.2 fun r' hr' => by simp [hsame r' hr' r mem_cons_self]
    omega

/-- A transaction of which the completion is pending was confirmed by all of its tablets. -/
lemma Inv.confirmed_of_pending (h : Inv s) (hlead : s.leader = some n)
    (hrec : record ∈ s.pending) (hs : record.state.status = .appliedInAllInvolvedTablets)
    (hd : decision record.state.transactionId s.log = .committed ht tablets) :
    ∀ tablet ∈ tablets, (record.state.transactionId, tablet) ∈ s.confirmed := by
  obtain ⟨t, htxn, hrepl, -⟩ := h.allows_pending hlead hrec
  obtain ⟨hid, hinv, -⟩ := h.managed n _ t htxn
  have hagr := h.agrees_leader hlead record.state.transactionId
  rw [htxn, hd] at hagr
  obtain ⟨-, -, htabs⟩ := hagr
  intro tablet htab
  have hmem : tablet ∈ t.involvedTablets.map Prod.fst := by
    rw [htabs]
    exact mem_dedup.2 htab
  obtain ⟨x, hx, rfl⟩ := mem_map.1 hmem
  rw [← hid]
  exact (hinv.applied record.operation (by simp [requests, hrepl]) hs).2 x hx

omit [DecidableEq ι] [DecidableEq τ] in
/-- A transaction is applied everywhere only after it was committed. -/
lemma next_eq_applied (hall : d.Allows record.state.status)
    (hd : d.next record = .applied ht tablets) :
    d = .committed ht tablets ∧ record.state.status = .appliedInAllInvolvedTablets := by
  cases d with
  | undecided =>
    rcases hall with hs | hs | hs | hs <;> simp [Decision.next, hs] at hd
  | committed ht' tablets' =>
    have hs : record.state.status = .appliedInAllInvolvedTablets := hall
    simp only [Decision.next, hs] at hd
    obtain ⟨rfl, rfl⟩ := hd
    exact ⟨rfl, hs⟩
  | aborted | applied ht' tablets' => cases hall

/-- A leader is deposed, and some of the pending records are lost. -/
lemma Inv.depose (h : Inv s) {kept : ℕ}
    (hstep : s.step timeout (.depose kept) = some (s', answers)) : Inv s' ∧ answers = [] := by
  obtain ⟨n, hlead, hstep⟩ := map_eq_some_iff.1 hstep
  cases hstep
  have hmem : ∀ record ∈ s.pending.take kept, record ∈ s.pending := fun record hrec =>
    mem_of_mem_take hrec
  -- a transaction has one pending record at most
  have hone : ∀ id, (s.pending.take kept).countP
      fun record => record.state.transactionId = id ≤ 1 := fun id =>
    (List.Sublist.countP_le (take_sublist _ _)).trans (h.countP_pending hlead id)
  have hall : ∀ record ∈ s.pending.take kept,
      (decision record.state.transactionId s.log).Allows record.state.status := by
    intro record hrec
    obtain ⟨-, -, -, hall⟩ := h.allows_pending hlead (hmem record hrec)
    exact hall
  refine ⟨h.updateLeader hlead (.inr ⟨rfl, rfl⟩) (prefix_append _ _) rfl le_rfl rfl rfl rfl
    (fun id => ?_) (fun id => ?_) (fun id hnone hrecs => ⟨hnone, ?_⟩) ?_, rfl⟩
  · have hR := h.replicas id n
    rw [leadOf_self hlead] at hR
    have hdeposed := hR.depose ((s.replica n).lost ++ (s.pending.drop kept).map (·.operation))
    exact hdeposed.mono (prefix_append _ _) (refl _) le_rfl le_rfl
  · refine (h.legal id).append (fun record hrec hid => ?_) (hone id)
    subst hid
    exact hall record hrec
  · intro record hrec hid
    rcases mem_append.1 hrec with hrec | hrec
    · exact hrecs record hrec hid
    · obtain ⟨t, ht, -⟩ := h.allows_pending hlead (hmem record hrec)
      rw [hid, hnone] at ht
      cases ht
  · intro id ht tablets hd
    -- the decision is an old one, or that of the one pending record
    rcases decision_append_of_countP s.log (hone id) with heq | ⟨record, hrec, rfl, heq⟩
    · exact h.applied id ht tablets (heq ▸ hd)
    · obtain ⟨hd', hs⟩ := next_eq_applied (hall record hrec) (heq.symm.trans hd)
      exact h.confirmed_of_pending hlead (hmem record hrec) hs hd'

variable {new : List (UpdateTxnOperationState ι τ)} {id : ι} {e : Event ν ι τ}
  {es : List (Event ν ι τ)}

omit [DecidableEq ι] in
/-- What a call that processes a record has submitted. -/
lemma submitted_of_processes
    (hp : Processes c d record m m' acts acts' new) (hupds : acts.updates = []) (term : ℕ) :
    (if acts'.leader then acts'.updates.map (term, ·) else []) = new.map (term, ·) := by
  rw [hp.updates, hupds, nil_append]
  cases hl : acts.leader with
  | true =>
    have hl' : acts'.leader = true := by
      rw [PostponedLeaderActions.leader, hp.leaderTerm]
      exact hl
    rw [if_pos hl']
  | false =>
    rw [hp.leads hl]
    simp

omit [DecidableEq ι] [DecidableEq τ] in
/-- A replica is changed, and then a call is made on it. -/
lemma call_setReplica (s : StatusTablet ν ι τ) (n : ν) (R : StatusReplica ι τ) (leading : Bool)
    (f : ManagedTransactions ι τ → PostponedLeaderActions ι τ →
      ManagedTransactions ι τ × PostponedLeaderActions ι τ) :
    (s.setReplica n R).call n leading f =
      let r := f R.managed (s.startActions leading s.nextNumber)
      ({ s with
          nextNumber := r.2.nextNumber
          replica := update s.replica n { R with
            managed := r.1
            submitted := R.submitted ++ if r.2.leader then r.2.updates.map (s.term, ·) else [] } },
        r.2.answers) := by
  simp only [call, setReplica, update_self, update_idem]
  rfl

/-- The answers that a processed record gives. -/
lemma answerOk_of_processes (hp : Processes c d record m m' acts acts' new)
    (hans : acts.answers = []) {log : List (StatusRecord ι τ)}
    (habt : d.next record = .aborted → decision record.state.transactionId log = .aborted)
    (hcom : ∀ ht tablets, d.next record = .committed ht tablets →
      decision record.state.transactionId log = .committed ht tablets ∨
        decision record.state.transactionId log = .applied ht tablets) :
    ∀ a ∈ acts'.answers, AnswerOk (decision a.transactionId log) a.result := by
  intro a ha
  rcases hp.answers a ha with ha | ⟨hid, hnone | ⟨hd, hres⟩ | ⟨tablets, hd, hres⟩⟩
  · rw [hans] at ha
    cases ha
  · rw [hnone]
    exact trivial
  · rw [hid, hres, habt hd]
    exact fun _ _ => by simp
  · rw [hid, hres]
    exact .inl ⟨tablets, hcom _ _ hd⟩

section

variable (h : Inv s)

include h

/-- The first pending record is replicated and processed by the leader. -/
lemma Inv.commit (hstep : s.step timeout (.commit leading now) = some (s', answers)) :
    Inv s' ∧ ∀ a ∈ answers, AnswerOk (decision a.transactionId s'.log) a.result := by
  obtain ⟨n, hlead, hstep⟩ := bind_eq_some_iff.1 hstep
  cases hpend : s.pending with
  | nil => simp [hpend] at hstep
  | cons record pending =>
    rw [hpend] at hstep
    dsimp only at hstep
    rw [call_setReplica] at hstep
    have hmem : record ∈ s.pending := by
      rw [hpend]
      exact mem_cons_self
    -- the leader manages the transaction of what it has pending
    obtain ⟨t, ht, hrepl, hall⟩ := h.allows_pending hlead hmem
    obtain ⟨new, hp⟩ := processes (s.startActions leading s.nextNumber) timeout now
      (h.agrees_leader hlead _) hall (h.managed n _) fun _ => ⟨t, record.operation, ht, hrepl, rfl⟩
    have hnext : decision record.state.transactionId (s.log ++ [record]) =
        (decision record.state.transactionId s.log).next record := by
      rw [decision_append_singleton, if_pos rfl]
    cases hstep
    refine ⟨h.updateLeader hlead (.inl hlead) (prefix_append _ _) rfl hp.next rfl rfl rfl
      (fun id => ?_) (fun id => (h.legal id).append_singleton ?_) (fun id hnone hrecs => ?_) ?_,
      answerOk_of_processes hp rfl (hnext.trans) fun _ _ hd => .inl (hnext.trans hd)⟩
    · have hRid := h.replicas id n
      rw [leadOf_self hlead, hpend] at hRid
      rw [leadOf_self (by exact hlead)]
      have hcmt := ReplicaInv.commit hRid hp
      rw [← submitted_of_processes hp rfl s.term] at hcmt
      exact hcmt
    · rintro rfl
      exact hall
    · -- a transaction nobody manages is not the record's
      have hne : id ≠ record.state.transactionId := by
        rintro rfl
        rw [hnone] at ht
        cases ht
      refine ⟨(hp.others id hne).trans hnone, fun r hr => ?_⟩
      rcases mem_append.1 hr with hr | hr
      · exact hrecs r hr
      · rw [mem_singleton.1 hr]
        exact hne.symm
    · intro id hybridTime tablets hd
      rw [decision_append_singleton] at hd
      split_ifs at hd with hid
      · subst hid
        -- applied everywhere is only pending once all tablets have confirmed
        obtain ⟨hd', hs⟩ := next_eq_applied hall hd
        exact h.confirmed_of_pending hlead hmem hs hd'
      · exact h.applied id hybridTime tablets hd

/-- A follower processes a replicated record. -/
lemma Inv.apply (hstep : s.step timeout (.apply n) = some (s', answers)) :
    Inv s' ∧ ∀ a ∈ answers, AnswerOk (decision a.transactionId s'.log) a.result := by
  simp only [step] at hstep
  split_ifs at hstep with hleader
  obtain ⟨record, hrec, hstep⟩ := map_eq_some_iff.1 hstep
  rw [call_setReplica] at hstep
  have hlead : s.leadOf n = none := by rw [leadOf, if_neg hleader]
  have hR := h.replicas record.state.transactionId n
  have hall := h.legal record.state.transactionId _ record hrec rfl
  obtain ⟨new, hp⟩ := processes (s.startActions false s.nextNumber) timeout kMin hR.agrees hall
    hR.inv (by simp [startActions_leader])
  have hnext : decision record.state.transactionId (s.log.take ((s.replica n).applied + 1)) =
      (decision record.state.transactionId (s.log.take (s.replica n).applied)).next record := by
    rw [ReplicaInv.decision_take_succ hrec, if_pos rfl]
  -- what the processed part of the log decides stays
  have hlegal := h.legal record.state.transactionId
  rw [← take_append_drop ((s.replica n).applied + 1) s.log] at hlegal
  have hlater := hlegal.decision_append
  rw [take_append_drop, hnext] at hlater
  cases hstep
  refine ⟨h.updateReplica rfl rfl rfl rfl hp.next (refl _) rfl (fun id => ?_)
    (fun id hid => ⟨hid, ?_⟩), answerOk_of_processes hp rfl hlater.1 hlater.2⟩
  · have hRid := h.replicas id n
    rw [hlead] at hRid
    have happly := ReplicaInv.apply hRid hrec hp
    rw [← submitted_of_processes hp rfl s.term] at happly
    rw [hlead]
    exact happly
  · obtain ⟨hnone, hrecs⟩ := h.created id hid
    have hne := hrecs record (mem_of_getElem? hrec)
    exact (hp.others id hne.symm).trans (hnone n)

/-- A request that has failed leaves nothing of the requests of its transaction. -/
lemma Inv.failed (hman : R.managed = (s.replica n).managed)
    (hR : ∀ id acts, ReplicaInv id s.log s.confirmed s.nextNumber s.term (s.leadOf n)
      { R with managed := (R.managed.processAborted request acts).1 })
    (hstep : (s.setReplica n R).call n false (fun m acts => m.processAborted request acts) =
      (s', answers)) : Inv s' ∧ ∀ a ∈ answers, a.result = none := by
  rw [call_setReplica] at hstep
  obtain ⟨hnum, hupds, hterm, hans, hoth, hcases⟩ := processAborted_cases
    (s.startActions false s.nextNumber) (hman ▸ fun t ht => h.managed n request.transactionId t ht)
  have hlead : (R.managed.processAborted request (s.startActions false s.nextNumber)).2.leader =
      false := by
    rw [PostponedLeaderActions.leader, hterm]
    rfl
  cases hstep
  refine ⟨h.updateReplica rfl rfl rfl rfl hnum.ge (refl _) rfl (fun id => ?_)
    (fun id hid => ⟨hid, ?_⟩), fun a ha => ?_⟩
  · have hRid := hR id (s.startActions false s.nextNumber)
    rw [← append_nil R.submitted] at hRid
    simp only [hlead]
    rw [show (_ : PostponedLeaderActions ι τ).nextNumber = _ from hnum]
    exact hRid
  · -- a failure creates no transaction
    have hnone := (h.created id hid).1 n
    rw [← hman] at hnone
    by_cases hne : id = request.transactionId
    · subst hne
      rcases hcases with ⟨-, hm⟩ | ⟨t, -, ht, -⟩
      · exact hm
      · rw [hnone] at ht
        cases ht
    · exact (hoth id hne).trans hnone
  · exact (hans a ha).resolve_left (by simp [startActions])

/-- A request fails. -/
lemma Inv.fail (hsafe : s.FailsReplicating (.fail n number))
    (hstep : s.step timeout (.fail n number) = some (s', answers)) :
    Inv s' ∧ ∀ a ∈ answers, a.result = none := by
  simp only [step] at hstep
  cases hx : (s.replica n).submitted.find? fun x => x.2.number = number with
  | some x =>
    rw [hx] at hstep
    have hmem := mem_of_find?_eq_some hx
    have hnum : x.2.number = number := by simpa using find?_some hx
    refine h.failed (R := { s.replica n with submitted := (s.replica n).submitted.erase x }) rfl
      (fun id acts => (h.replicas id n).fail hmem (h.managed n _) fun t r ht hr => ?_)
      (Option.some.inj hstep)
    rw [hnum]
    exact hsafe x hmem hnum r (by simp [ht, hr])
  | none =>
    rw [hx] at hstep
    obtain ⟨x, hlost, hstep⟩ := map_eq_some_iff.1 hstep
    -- a leader has lost nothing, so that this replica leads no more
    have hlead : s.leadOf n = none := by
      cases hlead : s.leadOf n with
      | none => rfl
      | some pending =>
        rw [(h.replicas x.request.transactionId n).lost (by rw [hlead]; rfl)] at hlost
        cases hlost
    refine h.failed (R := { s.replica n with lost := (s.replica n).lost.erase x }) rfl
      (fun id acts => ?_) hstep
    have hRid := h.replicas id n
    rw [hlead] at hRid ⊢
    exact hRid.failLost (h.managed n _) _

/-! ### Calls of clients -/

/-- What clients have said only grows. -/
lemma Inv.recordRequest (request : TransactionStatePB ι τ) : Inv (s.recordRequest request) := by
  have hgrows : ∀ created confirmed, s.created ⊆ created → s.confirmed ⊆ confirmed →
      Inv { s with created, confirmed } := fun created confirmed hcre hconf =>
    ⟨fun id n => (h.replicas id n).mono_next hconf le_rfl, h.legal,
      fun id hid => h.created id fun hmem => hid (hcre hmem),
      fun id ht tablets hd tablet htab => hconf (h.applied id ht tablets hd tablet htab),
      h.idle⟩
  unfold StatusTablet.recordRequest
  split
  · exact hgrows _ s.confirmed (subset_cons_self _ _) (refl _)
  · exact hgrows s.created _ (refl _) (subset_append_right _ _)
  · exact h

/-- A new transaction is managed. -/
lemma Inv.create (hnone : (s.replica n).managed id = none) (hid : id ∈ s.created)
    (hrecs : ∀ record ∈ s.log, record.state.transactionId ≠ id) (now : HybridTime) :
    Inv (s.setReplica n { s.replica n with
      managed := update (s.replica n).managed id (some { id, lastTouch := now }) }) := by
  refine h.updateReplica rfl rfl rfl rfl le_rfl (refl _) rfl (fun id' => ?_)
    fun id' hid' => ⟨hid', ?_⟩
  · by_cases hne : id' = id
    · subst hne
      refine (h.replicas id' n).create hnone ?_ now
      exact decision_append_of_ne [] fun record hrec =>
        hrecs record (mem_of_mem_take hrec)
    · have hm := update_of_ne hne (some { id, lastTouch := now }) (s.replica n).managed
      exact (h.replicas id' n).dropRequests (.inl hm) (refl _) (fun _ => le_rfl)
        (h.replicas id' n).lost fun _ _ _ hr => ⟨hr, hm⟩
  · have hne : id' ≠ id := fun heq => hid' (heq ▸ hid)
    exact (update_of_ne hne _ _).trans ((h.created id' hid').1 n)

/-- A call of `Handle` keeps the invariant and answers nothing. -/
abbrev HandleKeeps (s : StatusTablet ν ι τ) (n : ν) (timeout : ℤ) (now : HybridTime)
    (request : TransactionStatePB ι τ) : Prop :=
  let r := call { s with nextNumber := s.nextNumber + 1 } n true fun m acts =>
    m.handle timeout now ⟨s.nextNumber, request⟩ acts
  Inv r.1 ∧ r.2 = []

/-- `Handle` that keeps what is replicating. -/
lemma Inv.handle_of_keeps
    (hk : Keeps s.confirmed (s.replica n).managed m (s.startActions true s.nextNumber) acts')
    (heq : handle timeout (s.replica n).managed now ⟨s.nextNumber, request⟩
      (s.startActions true (s.nextNumber + 1)) = (m, acts')) :
    s.HandleKeeps n timeout now request := by
  obtain ⟨rfl, rfl⟩ := Prod.ext_iff.1 heq
  exact ⟨h.call_of_keeps hk rfl, hk.answers⟩

/-- `Handle` for a transaction that is managed. -/
lemma Inv.handleManaged (request : TransactionStatePB ι τ) (timeout : ℤ)
    (now : HybridTime) (ht : (s.replica n).managed request.transactionId = some t)
    (hcre : request.status = .created → t.status = .pending ∧ t.replicating = none)
    (habt : request.status ≠ .aborted)
    (happl : request.status ≠ .appliedInAllInvolvedTablets)
    (hconf : request.status = .appliedInOneOfInvolvedTablets →
      ∀ tablet ∈ request.tablets, (request.transactionId, tablet) ∈ s.confirmed) :
    s.HandleKeeps n timeout now request := by
  obtain ⟨hid, hinv, hidle⟩ := h.managed n _ t ht
  obtain ⟨new, hkeeps⟩ := hinv.handle (s.startActions true (s.nextNumber + 1)) timeout now
    (r := ⟨s.nextNumber, request⟩) hidle rfl rfl
    hid.symm hcre habt happl (hid ▸ hconf)
  refine h.handle_of_keeps (.of_transaction (h.managed n) ht hkeeps) ?_
  simp only [ManagedTransactions.handle, ht]

end

/-- `Handle` for a new transaction: as if it had been managed already. -/
lemma handle_of_created (operation : UpdateTxnOperationState ι τ)
    (hnone : m operation.request.transactionId = none) (hs : operation.request.status = .created) :
    m.handle timeout now operation acts = handle timeout (update m operation.request.transactionId
        (some { id := operation.request.transactionId, lastTouch := now })) now operation acts := by
  simp only [ManagedTransactions.handle, hnone, hs, if_true, update_self, update_idem]

omit [DecidableEq ι] [DecidableEq τ] in
/-- What a call does depends on the managed transactions as the call sees them. -/
lemma call_setReplica_managed (s : StatusTablet ν ι τ) (n : ν) (leading : Bool)
    (hf : f (s.replica n).managed (s.startActions leading s.nextNumber) =
      f m (s.startActions leading s.nextNumber)) :
    (s.setReplica n { s.replica n with managed := m }).call n leading f = s.call n leading f := by
  rw [call_setReplica]
  rw [← hf]
  rfl

/-- `Handle` for a new transaction. -/
lemma Inv.handleNew (h : Inv s) (hnone : (s.replica n).managed request.transactionId = none)
    (hs : request.status = .created) (hcre : request.transactionId ∈ s.created)
    (hrecs : ∀ record ∈ s.log, record.state.transactionId ≠ request.transactionId) :
    s.HandleKeeps n timeout now request := by
  have hman := (h.create hnone hcre hrecs now).handleManaged (n := n) request timeout now
    (by simp only [setReplica, update_self]; rfl)
    (fun _ => ⟨rfl, rfl⟩) (by simp [hs]) (by simp [hs]) (by simp [hs])
  have hcall := call_setReplica_managed { s with nextNumber := s.nextNumber + 1 } n true
    (f := fun m acts => m.handle timeout now ⟨s.nextNumber, request⟩ acts)
    (handle_of_created ⟨s.nextNumber, request⟩ hnone hs)
  rw [HandleKeeps, ← hcall]
  exact hman

/-- `Handle` for a transaction that is not known: it does nothing. -/
lemma Inv.handleUnknown (h : Inv s) (hnone : (s.replica n).managed request.transactionId = none)
    (hs : request.status ≠ .created) :
    s.HandleKeeps n timeout now request := by
  refine h.handle_of_keeps (.of_next_le (h.managed n) (Nat.le_succ _)) ?_
  simp only [ManagedTransactions.handle, hnone, hs]
  rfl

omit [DecidableEq ν] [DecidableEq τ] in
/-- What a client may ask for. -/
lemma clientStatus_iff (h : s.clientStatus request = true) :
    (request.status = .created → request.transactionId ∉ s.created) ∧
      request.status ≠ .aborted ∧ request.status ≠ .appliedInAllInvolvedTablets := by
  unfold clientStatus at h
  cases hs : request.status <;> simp_all

/-- The leader handles a request of a client. -/
lemma Inv.handle (h : Inv s) (hstep : s.step timeout (.handle request now) = some (s', answers)) :
    Inv s' ∧ answers = [] := by
  obtain ⟨n, hlead, hstep⟩ := bind_eq_some_iff.1 hstep
  split_ifs at hstep with hclient
  obtain ⟨hcre, habt, happl⟩ := clientStatus_iff hclient
  have hrecorded := (h.recordRequest request).readClock n now
  have hconf : request.status = .appliedInOneOfInvolvedTablets → ∀ tablet ∈ request.tablets,
        (request.transactionId, tablet) ∈
          ((s.recordRequest request).readClock n now).confirmed := by
    intro hs tablet htab
    simp only [StatusTablet.recordRequest, hs]
    exact mem_append_left _ (mem_map_of_mem htab)
  have hsame : let s₁ := (s.recordRequest request).readClock n now
      s₁.replica = s.replica ∧ s₁.nextNumber = s.nextNumber ∧ s₁.log = s.log := by
    unfold StatusTablet.recordRequest
    split <;> exact ⟨rfl, rfl, rfl⟩
  have hincreated : request.status = .created →
      request.transactionId ∈ ((s.recordRequest request).readClock n now).created := by
    intro hs
    simp only [StatusTablet.recordRequest, hs]
    exact mem_cons_self
  obtain ⟨hrepl, hnum, hlog⟩ := hsame
  rw [← hnum] at hstep
  cases ht : (s.replica n).managed request.transactionId with
  | some t =>
    -- a transaction that is managed is not created again
    have hman :=
      hrecorded.handleManaged request timeout now (hrepl ▸ ht) (fun hs => ?_) habt happl hconf
    · rwa [HandleKeeps, Option.some.inj hstep] at hman
    · rw [(h.created _ (hcre hs)).1 n] at ht
      cases ht
  | none =>
    rw [← hrepl] at ht
    cases hstep
    by_cases hs : request.status = .created
    · exact hrecorded.handleNew ht hs (hincreated hs) (hlog ▸ (h.created _ (hcre hs)).2)
    · exact hrecorded.handleUnknown ht hs

/-! ### Answers -/

section

omit [DecidableEq ι]

/-- "Aborted" is right for a transaction that is not there. -/
lemma answerOk_aborted (h : Agrees d (none : Option (TransactionState ι τ))) :
    AnswerOk d (some .aborted) := by
  rintro ht tablets rfl
  exact h

/-- "Committed" is right for a transaction that is there and committed. -/
lemma answerOk_committed (h : Agrees d (some t)) (hs : t.status = .committed) :
    AnswerOk d (some ⟨.committed, t.commitTime⟩) := by
  cases d with
  | undecided =>
    rw [show t.status = .pending from h] at hs
    cases hs
  | committed ht tablets => exact .inl ⟨tablets, .inl (by rw [h.2.1])⟩
  | aborted | applied ht tablets => cases h

/-- The commit was requested, but the log has no record of it. -/
lemma answerOk_kMax (h : Agrees d (some t)) (hs : t.status = .pending) :
    AnswerOk d (some ⟨.committed, kMax⟩) := by
  cases d with
  | undecided => exact .inr ⟨rfl, rfl⟩
  | committed ht tablets =>
    rw [h.1] at hs
    cases hs
  | aborted | applied ht tablets => cases h

end

/-- A client asks for an abort. -/
lemma Inv.abort (h : Inv s) (hstep : s.step timeout (.abort id) = some (s', answers)) :
    Inv s' ∧ ∀ a ∈ answers, AnswerOk (decision a.transactionId s'.log) a.result := by
  obtain ⟨n, hlead, hstep⟩ := map_eq_some_iff.1 hstep
  have hagr := h.agrees_leader hlead id
  obtain ⟨acts', new, hk, hacts, hans⟩ := ManagedTransactions.Keeps.abort
    (s.startActions true s.nextNumber) id (h.managed n)
  cases hstep
  refine ⟨h.call_of_keeps (f := fun m acts => m.abort id acts) hk hacts, fun a ha => ?_⟩
  have hmem : a ∈ new := by
    have ha' : a ∈ ((s.replica n).managed.abort id (s.startActions true s.nextNumber)).2.answers :=
      ha
    rw [hacts] at ha'
    exact ha'
  obtain ⟨rfl, ⟨ht, hr⟩ | ⟨t, ht, ⟨hs, hr⟩ | ⟨hs, hr⟩⟩⟩ := hans a hmem
  all_goals rw [ht] at hagr; rw [hr]
  · exact answerOk_aborted hagr
  · exact answerOk_committed hagr hs
  · exact answerOk_kMax hagr hs

/-- A client asks for statuses. -/
lemma Inv.getStatus (h : Inv s) {htLease : HybridTime}
    (hstep : s.step timeout (.getStatus ids now htLease) = some (s', answers)) :
    Inv s' ∧ ∀ a ∈ answers, AnswerOk (decision a.transactionId s'.log) a.result := by
  obtain ⟨n, hlead, hstep⟩ := map_eq_some_iff.1 hstep
  cases hstep
  refine ⟨{ h with }, fun a ha => ?_⟩
  obtain ⟨id, -, rfl⟩ := mem_map.1 ha
  have hagr := h.agrees_leader hlead id
  cases ht : (s.replica n).managed id with
  | none =>
    rw [ht] at hagr
    -- one that is not managed is answered as aborted
    exact answerOk_aborted hagr
  | some t =>
    rw [ht] at hagr
    obtain ⟨-, hinv, -⟩ := h.managed n id t ht
    rcases hinv.status with hs | hs
    · simp only [TransactionState.getStatus, hs]
      exact trivial
    · simp only [TransactionState.getStatus, hs]
      exact answerOk_committed hagr hs

/-! ## Runs -/

/-- A new tablet has no transactions. -/
lemma Inv.init : Inv ({} : StatusTablet ν ι τ) := by
  refine ⟨fun id n => ?_, fun id i record hrec => by simp at hrec,
    fun id _ => ⟨fun _ => rfl, by simp⟩, fun id ht tablets hd => (nomatch hd), fun _ => rfl⟩
  refine ⟨Nat.zero_le _, trivial, by simp, by simp, ?_, ?_, fun _ => rfl, fun _ =>
    rfl, by simp [leadOf]⟩
  all_goals simp [places, queueOf, submittedOf, pendingOf, requestsOf, numbered, leadOf]

/-- Every event keeps the invariant, and every answer is right. -/
lemma Inv.step (h : Inv s) (hsafe : s.FailsReplicating e)
    (hstep : s.step timeout e = some (s', answers)) :
    Inv s' ∧ ∀ a ∈ answers, AnswerOk (decision a.transactionId s'.log) a.result := by
  have hnil : Inv s' ∧ answers = [] →
      Inv s' ∧ ∀ a ∈ answers, AnswerOk (decision a.transactionId s'.log) a.result := by
    rintro ⟨hinv, rfl⟩
    exact ⟨hinv, by simp⟩
  cases e with
  | handle request now => exact hnil (h.handle hstep)
  | abort id => exact h.abort hstep
  | getStatus ids now htLease => exact h.getStatus hstep
  | poll n leading now ids => exact hnil (h.poll hstep)
  | append number hybridTime => exact hnil (h.append hstep)
  | fail n number =>
    obtain ⟨hinv, hans⟩ := h.fail hsafe hstep
    refine ⟨hinv, fun a ha => ?_⟩
    rw [hans a ha]
    exact trivial
  | commit leading now => exact h.commit hstep
  | apply n => exact h.apply hstep
  | depose kept => exact hnil (h.depose hstep)
  | elect n => exact hnil (h.elect hstep)
  | restart n => exact hnil (h.restart hstep)

/-- Runs in which every request that fails is the one that its transaction replicates, or none
is. -/
lemma Inv.run (hrun : Run (Restrict FailsReplicating (Step timeout)) {} es s) : Inv s := by
  refine hrun.invariant ?_ Inv.init
  rintro s e s' h ⟨hsafe, answers, hstep⟩
  exact (h.step hsafe hstep).1

/-- Once a commit is replicated no answer says that the transaction is aborted, while a tablet has
not confirmed, and every answer has its commit time. Once an abort is replicated no answer says that
the transaction is committed. -/
theorem decision_final {es : List (Event ν ι τ)} {e : Event ν ι τ} {answers : List (StatusAnswer ι)}
    (hrun : Run (Restrict FailsReplicating (Step timeout)) {} es s) (hsafe : s.FailsReplicating e)
    (hstep : s.step timeout e = some (s', answers)) {a : StatusAnswer ι} (ha : a ∈ answers)
    {r : TransactionStatusResult} (hr : a.result = some r) {record : StatusRecord ι τ}
    (hrecord : record ∈ s'.log) (hid : record.state.transactionId = a.transactionId) :
    (record.state.status = .committed →
      ((∃ tablet ∈ record.state.tablets, (a.transactionId, tablet) ∉ s'.confirmed) →
        r.status ≠ .aborted) ∧
      (r.status = .committed → r.statusTime = record.hybridTime)) ∧
    (record.state.status = .aborted → r.status ≠ .committed) := by
  obtain ⟨hinv, hans⟩ := (Inv.run hrun).step hsafe hstep
  have hok := hans a ha
  rw [hr] at hok
  obtain ⟨status, statusTime⟩ := r
  refine ⟨fun hs => ⟨?_, ?_⟩, ?_⟩
  · rintro ⟨tablet, htab, hnot⟩ rfl
    rcases (hinv.legal _).decision_of_committed hrecord hid hs with hd | hd
    · exact hok _ _ hd
    · exact hnot (hinv.applied _ _ _ hd tablet htab)
  · rintro rfl
    rcases (hinv.legal _).decision_of_committed hrecord hid hs with hd | hd <;> rw [hd] at hok <;>
      simpa [AnswerOk, eq_comm] using hok
  · rintro hs rfl
    rw [(hinv.legal _).decision_of_aborted hrecord hid hs] at hok
    simp [AnswerOk] at hok

/-- Transaction 0 is created, and committed with the hybrid time 30. -/
def committedRun : List (Event Bool ℕ ℕ) :=
  [.elect false, .handle { transactionId := 0, status := .created } 5, .append 0 10,
    .commit true 11,
    .handle { transactionId := 0, status := .committed, tablets := [7] } 25, .append 1 30,
    .commit true 31]

/-- A request from before a change of leaders fails after the commit was submitted. -/
def staleFailure : List (Event Bool ℕ ℕ) :=
  [.elect false, .handle { transactionId := 0, status := .created } 5, .append 0 10,
    .commit true 11,
    -- a heartbeat is submitted, and does not get appended in its term
    .handle { transactionId := 0, status := .pending } 12, .depose 0, .apply true, .elect true,
    -- the next leader replicates another one, so that the first one is not replicating any more
    .handle { transactionId := 0, status := .pending } 15, .append 2 20, .commit true 21,
    .apply false, .depose 0, .elect false,
    .handle { transactionId := 0, status := .committed, tablets := [7] } 25, .fail false 1,
    .append 3 30, .abort 0, .append 4 40, .commit true 41, .commit true 42]

/-- What is asked at the end of the runs. -/
def askStatus (s : StatusTablet Bool ℕ ℕ) :
    Option (StatusTablet Bool ℕ ℕ × List (StatusAnswer ℕ)) :=
  s.step 1000 (.getStatus [0] 50 100)

/-- The status of transaction 0, its commits in the log with their hybrid times, and who has
confirmed. -/
def summary (r : StatusTablet Bool ℕ ℕ × List (StatusAnswer ℕ)) :
    List (StatusAnswer ℕ) × List (StatusRecord ℕ ℕ) × List (ℕ × ℕ) :=
  (r.2, r.1.log.filter (·.state.status = .committed), r.1.confirmed)

/-- A record with the commit of transaction 0. -/
def commitRecord (number : ℕ) : StatusRecord ℕ ℕ :=
  ⟨⟨number, { transactionId := 0, status := .committed, tablets := [7] }⟩, 30⟩

lemma step_of_map (h : (s.step timeout e).map Prod.fst = some s') :
    Step timeout s e s' := by
  obtain ⟨⟨s₁, answers⟩, hstep, rfl⟩ := map_eq_some_iff.1 h
  exact ⟨answers, hstep⟩

/-- A run that is executed is a run. -/
lemma run_of_exec {c : StatusTablet ν ι τ → Event ν ι τ → Prop} [∀ s e, Decidable (c s e)]
    (h : Run.exec (restrict c fun s e => (s.step timeout e).map Prod.fst) s es = some s') :
    Run (Restrict c (Step timeout)) s es s' :=
  (Run.of_exec_restrict h).mono fun _ _ _ hs => ⟨hs.1, step_of_map hs.2⟩

theorem decision_final_committed :
    ∃ s s' : StatusTablet Bool ℕ ℕ, Run (Restrict FailsReplicating (Step 1000)) {} committedRun s ∧
      s.step 1000 (.getStatus [0] 50 100) = some (s', [⟨0, some ⟨.committed, 30⟩⟩]) ∧
      commitRecord 1 ∈ s'.log ∧
      (TransactionStatusResult.mk .committed 30).statusTime = (commitRecord 1).hybridTime := by
  have hexec : ((Run.exec (restrict FailsReplicating fun s e => (s.step 1000 e).map Prod.fst) {}
      committedRun).bind fun s => (askStatus s).map summary) =
      some ([⟨0, some ⟨.committed, 30⟩⟩], [commitRecord 1], []) := by decide +kernel
  obtain ⟨s, hs, hask⟩ := bind_eq_some_iff.1 hexec
  obtain ⟨⟨s', answers⟩, hstep, hsum⟩ := map_eq_some_iff.1 hask
  obtain ⟨rfl, hrest⟩ := Prod.mk.inj hsum
  obtain ⟨hlog, -⟩ := Prod.mk.inj hrest
  have hmem : commitRecord 1 ∈ s'.log := mem_of_mem_filter (hlog ▸ mem_singleton_self _)
  have hrun := run_of_exec hs
  have hfinal := decision_final (e := .getStatus [0] 50 100) hrun trivial hstep
    (mem_singleton_self _) rfl hmem rfl
  exact ⟨s, s', hrun, hstep, hmem, (hfinal.1 rfl).2 rfl⟩

/-- The failure of a request that was replaced lets an abort be submitted next to a commit: the
commit is replicated, and then the transaction is said to be aborted. -/
theorem not_decision_final :
    ∃ s s' : StatusTablet Bool ℕ ℕ, Run (Step 1000) {} staleFailure s ∧
      s.step 1000 (.getStatus [0] 50 100) = some (s', [⟨0, some ⟨.aborted, kMax⟩⟩]) ∧
      commitRecord 3 ∈ s'.log ∧ (0, 7) ∉ s'.confirmed := by
  have hexec : ((Run.exec (fun s e => (s.step 1000 e).map Prod.fst) {} staleFailure).bind
      fun s => (askStatus s).map summary) =
      some ([⟨0, some ⟨.aborted, kMax⟩⟩], [commitRecord 3], []) := by decide +kernel
  obtain ⟨s, hs, hask⟩ := bind_eq_some_iff.1 hexec
  obtain ⟨⟨s', answers⟩, hstep, hsum⟩ := map_eq_some_iff.1 hask
  obtain ⟨rfl, hrest⟩ := Prod.mk.inj hsum
  obtain ⟨hlog, hconf⟩ := Prod.mk.inj hrest
  have hrun : Run (Step 1000) {} staleFailure s :=
    (Run.of_exec hs).mono fun _ _ _ => step_of_map
  have hmem : commitRecord 3 ∈ s'.log := mem_of_mem_filter (hlog ▸ mem_singleton_self _)
  refine ⟨s, s', hrun, hstep, hmem, ?_⟩
  rw [show s'.confirmed = [] from hconf]
  exact not_mem_nil

end StatusTablet
