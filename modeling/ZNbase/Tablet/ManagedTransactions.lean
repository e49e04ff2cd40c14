import ZNbase.Tablet.StatusLog

/-!
# Calls of the coordinator, for each transaction

What the calls of a coordinator do with the transactions it manages, each by itself.

- `ManagedTransactions.Keeps`: requests, and polls, leave what is replicating alone, and submit a
  request only for a transaction for which nothing is.
- `ManagedTransactions.Processes`: a record that the log allows makes of its transaction what the
  log says, and answers the callers that wait for an abort accordingly.
-/

open Function HybridTime TransactionState Decision ManagedTransactions

/-! ## Calls that keep what is replicating -/

namespace ManagedTransactions

variable {ι τ : Type} [DecidableEq ι] {c : List (ι × τ)}
  {m m' m'' : ManagedTransactions ι τ} {acts acts' acts'' : PostponedLeaderActions ι τ} {id : ι}
  {timeout : ℤ} {now : HybridTime}

/-- Every transaction has its id, and requests that can follow on its status. -/
def Inv (c : List (ι × τ)) (m : ManagedTransactions ι τ) : Prop :=
  ∀ id t, m id = some t → t.id = id ∧ t.Inv c ∧ t.Idle

/-- The requests of a transaction. -/
def requestsOf (id : ι) (l : List (UpdateTxnOperationState ι τ)) :
    List (UpdateTxnOperationState ι τ) :=
  l.filter (·.request.transactionId = id)

/-- The requests of a transaction that wait for another one. -/
def queueOf : Option (TransactionState ι τ) → List (UpdateTxnOperationState ι τ)
  | some t => t.requestQueue
  | none => []

/-- A call that leaves alone, for every transaction, its status and what is replicating. -/
structure Keeps (c : List (ι × τ)) (m m' : ManagedTransactions ι τ)
    (acts acts' : PostponedLeaderActions ι τ) : Prop where
  leaderTerm : acts'.leaderTerm = acts.leaderTerm
  next : acts.nextNumber ≤ acts'.nextNumber
  answers : acts'.answers = acts.answers
  moves : ∃ new, acts'.updates = acts.updates ++ new ∧ ∀ id,
    (m id = none ∧ m' id = none ∧ requestsOf id new = []) ∨
    ∃ t t', m id = some t ∧ m' id = some t' ∧
      Moves c acts.leader t t' acts.nextNumber acts'.nextNumber (requestsOf id new)

lemma Keeps.of_next_le (h : Inv c m) {next : ℕ} (hn : acts.nextNumber ≤ next) :
    Keeps c m m acts { acts with nextNumber := next } := by
  refine ⟨rfl, hn, rfl, [], (List.append_nil _).symm, fun id => ?_⟩
  cases ht : m id with
  | none => exact .inl ⟨rfl, rfl, rfl⟩
  | some t =>
    obtain ⟨-, hinv, hidle⟩ := h id t ht
    exact .inr ⟨t, t, rfl, rfl, .refl hinv hidle _ _ _⟩

lemma Keeps.refl (h : Inv c m) : Keeps c m m acts acts := .of_next_le h le_rfl

/-- Two calls, one after the other. -/
lemma Keeps.trans (h : Keeps c m m' acts acts') (h' : Keeps c m' m'' acts' acts'') :
    Keeps c m m'' acts acts'' := by
  obtain ⟨new, hnew, hmoves⟩ := h.moves
  obtain ⟨new', hnew', hmoves'⟩ := h'.moves
  refine ⟨h'.leaderTerm.trans h.leaderTerm, h.next.trans h'.next, h'.answers.trans h.answers,
    new ++ new', by rw [hnew', hnew, List.append_assoc], fun id => ?_⟩
  have hfilter : requestsOf id (new ++ new') = requestsOf id new ++ requestsOf id new' :=
    List.filter_append _ _
  rw [hfilter]
  have hlead : acts'.leader = acts.leader := by
    rw [PostponedLeaderActions.leader, h.leaderTerm, PostponedLeaderActions.leader]
  rcases hmoves id with ⟨hm, hm', hn⟩ | ⟨t, t', hm, hm', hmove⟩ <;>
    rcases hmoves' id with ⟨hm₁, hm'', hn'⟩ | ⟨t₁, t'', hm₁, hm'', hmove'⟩
  · exact .inl ⟨hm, hm'', by rw [hn, hn', List.append_nil]⟩
  · rw [hm'] at hm₁
    cases hm₁
  · rw [hm'] at hm₁
    cases hm₁
  · rw [hm'] at hm₁
    cases hm₁
    rw [hlead] at hmove'
    exact .inr ⟨t, t'', hm, hm'', hmove.trans hmove' h.next h'.next⟩

/-- A call keeps the invariant. -/
lemma Keeps.inv (h : Keeps c m m' acts acts') (hm : Inv c m) : Inv c m' := by
  obtain ⟨new, -, hmoves⟩ := h.moves
  intro id t' ht'
  rcases hmoves id with ⟨-, hnone, -⟩ | ⟨t, t₁, ht, ht₁, hmove⟩
  · rw [hnone] at ht'
    cases ht'
  · rw [ht₁] at ht'
    cases ht'
    exact ⟨hmove.core.id.trans (hm id t ht).1, hmove.inv, hmove.idle⟩

variable {new : List (UpdateTxnOperationState ι τ)}

omit [DecidableEq ι] in
/-- The requests that a transaction submits are its own. -/
lemma transactionId_of_submits {leader : Bool} {t' : TransactionState ι τ} (hinv : t'.Inv c)
    (hsubmits : new = [] ∨ ∃ r, new = [r] ∧ t'.replicating = some r ∧
      Allowed t'.status r.request.status ∧ leader = true) :
    ∀ r ∈ new, r.request.transactionId = t'.id := by
  rcases hsubmits with rfl | ⟨r, rfl, hr, -⟩
  · simp
  · intro x hx
    rw [List.mem_singleton.1 hx]
    exact hinv.ids r (by simp [requests, hr])

lemma requestsOf_self (h : ∀ r ∈ new, r.request.transactionId = id) : requestsOf id new = new :=
  List.filter_eq_self.2 fun r hr => by simpa using h r hr

lemma requestsOf_of_ne {id' : ι}
    (h : ∀ r ∈ new, r.request.transactionId = id') (hne : id ≠ id') : requestsOf id new = [] :=
  List.filter_eq_nil_iff.2 fun r hr => by simpa [h r hr] using hne.symm

/-- A call on one transaction. -/
lemma Keeps.of_transaction (h : Inv c m) {t t' : TransactionState ι τ} (ht : m id = some t)
    (hkeeps : TransactionState.Keeps c t t' acts acts' new) :
    Keeps c m (update m id (some t')) acts acts' := by
  refine ⟨hkeeps.outcome.leaderTerm, hkeeps.outcome.next, hkeeps.answers, new,
    hkeeps.outcome.updates, fun id' => ?_⟩
  have hown : ∀ r ∈ new, r.request.transactionId = id := fun r hr => by
    rw [transactionId_of_submits hkeeps.inv hkeeps.outcome.submits r hr, hkeeps.core.id]
    exact (h id t ht).1
  by_cases hid : id' = id
  · subst hid
    rw [requestsOf_self hown]
    exact .inr ⟨t, t', ht, update_self .., hkeeps.moves⟩
  rw [requestsOf_of_ne hown hid, update_of_ne hid]
  cases ht' : m id' with
  | none => exact .inl ⟨rfl, rfl, rfl⟩
  | some t₁ =>
    obtain ⟨-, hinv, hidle⟩ := h id' t₁ ht'
    exact .inr ⟨t₁, t₁, rfl, rfl, .refl hinv hidle _ _ _⟩

variable (acts timeout now) in
/-- Expired transactions are aborted. -/
lemma Keeps.abortExpired (ids : List ι) (h : Inv c m) :
    Keeps c m (abortExpired timeout now ids m acts).1 acts
      (abortExpired timeout now ids m acts).2 := by
  induction ids generalizing m acts with
  | nil => exact .refl h
  | cons id ids ih =>
    unfold abortExpired
    cases ht : m id with
    | none => exact ih acts h
    | some t =>
      obtain ⟨-, hinv, hidle⟩ := h id t ht
      dsimp only
      split_ifs with hexp habt
      · rcases hinv.status with hs | hs <;> rw [hs] at habt <;> cases habt
      · obtain ⟨new, hkeeps⟩ := hinv.abort acts hidle
        have hone := Keeps.of_transaction h ht hkeeps
        exact hone.trans (ih _ (hone.inv h))
      · exact .refl h

variable (acts) in
/-- All transactions are polled. -/
lemma Keeps.pollAll (ids : List ι) (h : Inv c m) :
    Keeps c m (pollAll ids m acts).1 acts (pollAll ids m acts).2 := by
  induction ids generalizing m acts with
  | nil => exact .refl h
  | cons id ids ih =>
    unfold pollAll
    cases ht : m id with
    | none => exact ih acts h
    | some t =>
      obtain ⟨-, hinv, hidle⟩ := h id t ht
      obtain ⟨new, hkeeps⟩ := hinv.poll acts hidle
      have hone := Keeps.of_transaction h ht hkeeps
      exact hone.trans (ih _ (hone.inv h))

variable (acts timeout now) in
lemma Keeps.poll (ids : List ι) (h : Inv c m) :
    Keeps c m (m.poll timeout now ids acts).1 acts (m.poll timeout now ids acts).2 := by
  have hexp := Keeps.abortExpired acts timeout now ids h
  exact hexp.trans (Keeps.pollAll _ ids (hexp.inv h))

variable (acts id) in
/-- `Abort` on a request from outside. The answers say what the replica has. -/
lemma Keeps.abort (h : Inv c m) :
    ∃ acts' answers, Keeps c m (m.abort id acts).1 acts acts' ∧
      (m.abort id acts).2 = { acts' with answers := acts.answers ++ answers } ∧
      ∀ a ∈ answers, a.transactionId = id ∧ (m id = none ∧ a.result = some .aborted ∨
        ∃ t, m id = some t ∧ (t.status = .committed ∧ a.result = some ⟨.committed, t.commitTime⟩ ∨
          t.status = .pending ∧ a.result = some ⟨.committed, kMax⟩)) := by
  unfold ManagedTransactions.abort
  cases ht : m id with
  | none => exact ⟨acts, [⟨id, some .aborted⟩], .refl h, rfl, by simp⟩
  | some t =>
    obtain ⟨-, hinv, hidle⟩ := h id t ht
    obtain ⟨⟨new, hkeeps⟩, hres⟩ := hinv.abortRequested acts hidle
    have hone := Keeps.of_transaction h ht hkeeps
    dsimp only
    rcases hres with hr | ⟨hs, hr⟩ | ⟨hs, hr⟩
    · refine ⟨_, [], hone, ?_, by simp⟩
      rw [hr, List.append_nil, ← hkeeps.answers]
    · refine ⟨_, [⟨id, some ⟨.committed, t.commitTime⟩⟩], hone, ?_, by simp [hs]⟩
      rw [hr, hkeeps.answers]
    · refine ⟨_, [⟨id, some ⟨.committed, kMax⟩⟩], hone, ?_, by simp [hs]⟩
      rw [hr, hkeeps.answers]

end ManagedTransactions

/-! ## Replicated and failed requests -/

namespace ManagedTransactions

variable {ι τ : Type} [DecidableEq ι] [DecidableEq τ] {c : List (ι × τ)} {d : Decision τ}
  {m : ManagedTransactions ι τ} {acts : PostponedLeaderActions ι τ} {record : StatusRecord ι τ}
  {timeout : ℤ} {now : HybridTime}

omit [DecidableEq ι] [DecidableEq τ] in
/-- A new transaction. -/
lemma inv_new (id : ι) (lastTouch : HybridTime) :
    ({ id, lastTouch } : TransactionState ι τ).Inv c ∧
    ({ id, lastTouch } : TransactionState ι τ).Idle :=
  ⟨⟨.inl rfl, by simp [requests], by simp [requests], by simp, by simp [requests],
    by simp [requests], by simp [requests], by simp, by simp⟩, fun _ => rfl⟩

omit [DecidableEq ι] in
/-- A transaction for which a record is processed was there, or is new. -/
lemma getTransaction_of_allows (hagr : Agrees d (m record.state.transactionId))
    (hall : d.Allows record.state.status)
    (hinv : ∀ t, m record.state.transactionId = some t → t.id = record.state.transactionId ∧
      t.Inv c ∧ t.Idle) :
    ∃ t, m.getTransaction record.state.transactionId record.state.status record.hybridTime =
      some t ∧
      t.id = record.state.transactionId ∧ t.Inv c ∧ Agrees d (some t) ∧
      t.requestQueue = queueOf (m record.state.transactionId) ∧
      ∀ t', m record.state.transactionId = some t' → t' = t := by
  cases hm : m record.state.transactionId with
  | some t =>
    obtain ⟨hid, ht, -⟩ := hinv t hm
    refine ⟨t, by simp [getTransaction, hm], hid, ht, hm ▸ hagr, rfl, fun t' ht' => ?_⟩
    exact Option.some.inj ht'.symm
  | none =>
    rw [hm] at hagr
    cases d with
    | undecided =>
      -- a transaction is created for any record but the last of its life
      have hs : record.state.status ≠ .appliedInAllInvolvedTablets := by
        intro hs
        rw [hs] at hall
        simp [Allows, Allowed] at hall
      refine ⟨{ id := record.state.transactionId, lastTouch := record.hybridTime },
        by simp [getTransaction, hm, hs], rfl, (inv_new _ _).1, rfl, rfl, by simp⟩
    | committed ht tablets => cases hagr
    | aborted => cases hall
    | applied ht tablets => cases hall

/-- A record was processed by a replica. -/
structure Processes (c : List (ι × τ)) (d : Decision τ) (record : StatusRecord ι τ)
    (m m' : ManagedTransactions ι τ) (acts acts' : PostponedLeaderActions ι τ)
    (new : List (UpdateTxnOperationState ι τ)) : Prop where
  leaderTerm : acts'.leaderTerm = acts.leaderTerm
  next : acts.nextNumber ≤ acts'.nextNumber
  updates : acts'.updates = acts.updates ++ new
  others : ∀ id, id ≠ record.state.transactionId → m' id = m id
  own : ∀ r ∈ new, r.request.transactionId = record.state.transactionId
  agrees : Agrees (d.next record) (m' record.state.transactionId)
  inv : ∀ t, m' record.state.transactionId = some t →
    t.id = record.state.transactionId ∧ t.Inv c ∧ t.Idle
  budget : ∀ k, numbered (queueOf (m' record.state.transactionId)) k + numbered new k ≤
    numbered (queueOf (m record.state.transactionId)) k + fresh acts.nextNumber acts'.nextNumber k
  submits : ∀ r ∈ new, ∃ t, m' record.state.transactionId = some t ∧ t.replicating = some r ∧
    Allowed t.status r.request.status
  leads : acts.leader = false → new = []
  answers : ∀ a ∈ acts'.answers, a ∈ acts.answers ∨
    a.transactionId = record.state.transactionId ∧ (a.result = none ∨
      (d.next record = .aborted ∧ a.result = some .aborted) ∨
      ∃ tablets, d.next record = .committed record.hybridTime tablets ∧
        a.result = some ⟨.committed, record.hybridTime⟩)

variable {r : TransactionState ι τ × PostponedLeaderActions ι τ}

omit [DecidableEq τ] in
lemma checkCompleted_of_completed (h : r.1.completed = true) :
    m.checkCompleted r = (update m r.1.id none, (r.1.clearRequests r.2).2) := by
  unfold checkCompleted
  rw [if_pos h]

omit [DecidableEq τ] in
lemma checkCompleted_of_not_completed (h : r.1.completed = false) :
    m.checkCompleted r = (update m r.1.id (some r.1), r.2) := by
  unfold checkCompleted
  rw [if_neg (by simp [h])]

section

variable {t t' : TransactionState ι τ} {acts' : PostponedLeaderActions ι τ}
  {new : List (UpdateTxnOperationState ι τ)}

/-- The transaction is completed by the record, and removed. -/
lemma processes_of_completed (hp : Processed c t t' acts acts' record.state record.hybridTime new)
    (hid : t.id = record.state.transactionId)
    (hnone : Agrees (d.next record) (none : Option (TransactionState ι τ)))
    (hcomp : t'.completed = true) (habt : record.state.status = .aborted → d.next record = .aborted)
    (hcom : record.state.status ≠ .committed) :
    Processes c d record m (m.checkCompleted (t', acts')).1 acts
      (m.checkCompleted (t', acts')).2 new := by
  have hid' : t'.id = record.state.transactionId := hp.id.trans hid
  -- a completed transaction submits nothing
  obtain rfl : new = [] := by
    rcases hp.outcome.submits with hnew | ⟨r, -, -, hall, -⟩
    · exact hnew
    · rcases completed_iff.1 hcomp with hs | hs <;> rw [hs] at hall <;> cases hall
  rw [checkCompleted_of_completed hcomp]
  dsimp only
  refine ⟨hp.outcome.leaderTerm, hp.outcome.next, hp.outcome.updates, fun id hne => ?_, by simp,
    ?_, ?_, fun k => ?_, by simp, fun _ => rfl, fun a ha => ?_⟩
  · exact update_of_ne (by rwa [hid']) _ _
  · rw [hid', update_self]
    exact hnone
  · simp [hid']
  · simp [hid', queueOf, numbered]
  · -- requests still queued are answered when it is dropped
    rcases mem_answers_clearRequests ha with ha | rfl
    · rcases hp.answers a ha with ha | rfl | ⟨hs, rfl⟩ | ⟨hs, -⟩
      · exact .inl ha
      · exact .inr ⟨hid, .inl rfl⟩
      · exact .inr ⟨hid, .inr (.inl ⟨habt hs, rfl⟩)⟩
      · exact absurd hs hcom
    · exact .inr ⟨hid', .inl rfl⟩

/-- The transaction is put back. -/
lemma processes_of_not_completed
    (hp : Processed c t t' acts acts' record.state record.hybridTime new)
    (hid : t.id = record.state.transactionId)
    (hque : t.requestQueue = queueOf (m record.state.transactionId))
    (hsome : Agrees (d.next record) (some t')) (hinv : t'.Inv c) (hidle : t'.Idle)
    (habt : record.state.status ≠ .aborted)
    (hcom : record.state.status = .committed →
      ∃ tablets, d.next record = .committed record.hybridTime tablets) :
    Processes c d record m (m.checkCompleted (t', acts')).1 acts
      (m.checkCompleted (t', acts')).2 new := by
  have hid' : t'.id = record.state.transactionId := hp.id.trans hid
  have hcomp : t'.completed = false := by
    rcases hinv.status with hs | hs <;> simp [completed, hs]
  -- what it submits is its own
  have hown : ∀ r ∈ new, r.request.transactionId = record.state.transactionId := fun r hr =>
    (transactionId_of_submits hinv hp.outcome.submits r hr).trans hid'
  rw [checkCompleted_of_not_completed hcomp]
  dsimp only
  refine ⟨hp.outcome.leaderTerm, hp.outcome.next, hp.outcome.updates, fun id hne => ?_, hown,
    ?_, ?_, fun k => ?_, fun r hr => ?_, fun hl => ?_, fun a ha => ?_⟩
  · exact update_of_ne (by rwa [hid']) _ _
  · rw [hid', update_self]
    exact hsome
  · intro t₁ ht₁
    rw [hid', update_self] at ht₁
    cases ht₁
    exact ⟨hid', hinv, hidle⟩
  · have hb := hp.outcome.budget k
    rw [hque] at hb
    rw [hid', update_self]
    exact hb
  · rw [hid', update_self]
    rcases hp.outcome.submits with rfl | ⟨r', rfl, hr', hall, -⟩
    · cases hr
    · obtain rfl := List.mem_singleton.1 hr
      exact ⟨t', rfl, hr', hall⟩
  · rcases hp.outcome.submits with hnew | ⟨r, -, -, -, hlead⟩
    · exact hnew
    · rw [hl] at hlead
      cases hlead
  · -- an answer is an old one, a failure, or what the record decides
    rcases hp.answers a ha with ha | rfl | ⟨hs, -⟩ | ⟨hs, rfl⟩
    · exact .inl ha
    · exact .inr ⟨hid, .inl rfl⟩
    · exact absurd hs habt
    · obtain ⟨tablets, hd⟩ := hcom hs
      exact .inr ⟨hid, .inr (.inr ⟨tablets, hd, rfl⟩)⟩

end

variable (acts timeout now) in
/-- A record that the log allows. On a leader it is the one that was replicating. -/
lemma processes (hagr : Agrees d (m record.state.transactionId))
    (hall : d.Allows record.state.status) (hinv : ∀ t, m record.state.transactionId = some t →
      t.id = record.state.transactionId ∧ t.Inv c ∧ t.Idle)
    (hlead : acts.leader = true → ∃ t r, m record.state.transactionId = some t ∧
      t.replicating = some r ∧ r.request = record.state) :
    ∃ new, Processes c d record m (m.processReplicated timeout now record.state record.hybridTime
      acts).1 acts
      (m.processReplicated timeout now record.state record.hybridTime acts).2 new := by
  -- the transaction is there, or is created for the record
  obtain ⟨t, hget, hid, ht, hagr', hque, hsame⟩ :=
    getTransaction_of_allows hagr hall hinv
  have hlead' : acts.leader = true → ∃ r, t.replicating = some r ∧ r.request = record.state := by
    intro hl
    obtain ⟨t', r, ht', hr, hrec⟩ := hlead hl
    rw [hsame t' ht'] at hr
    exact ⟨r, hr, hrec⟩
  obtain ⟨new, hp⟩ :=
    ht.processReplicated timeout now record.hybridTime (hagr'.allows_iff.1 hall) hlead'
  have hproc : m.processReplicated timeout now record.state record.hybridTime acts =
      m.checkCompleted (t.processReplicated timeout now record.state record.hybridTime acts) := by
    unfold processReplicated
    rw [hget]
  rw [hproc]
  refine ⟨new, ?_⟩
  -- the record decides abort, applied everywhere or commit, or it decides nothing
  rcases hp.decided with ⟨hs, hs'⟩ | ⟨hs, hs'⟩ | ⟨hs, hs', hcmt, htabs, hinv', hidle⟩
    | ⟨hs, hcore, hinv', hidle⟩
  · have hd : d.next record = .aborted := by
      unfold next
      rw [hs]
    exact processes_of_completed hp hid (by rw [hd]; rfl) (completed_iff.2 (.inl hs')) (fun _ => hd)
      (by simp [hs])
  · cases d with
    | undecided =>
      rw [hs] at hall
      simp [Allows, Allowed] at hall
    | committed ht tablets =>
      have hd : (committed ht tablets).next record = .applied ht tablets := by
        unfold next
        rw [hs]
      exact processes_of_completed hp hid (by rw [hd]; rfl) (completed_iff.2 (.inr hs'))
        (by simp [hs]) (by simp [hs])
    | aborted | applied ht tablets => cases hall
  · cases d with
    | undecided =>
      have hd : (undecided : Decision τ).next record =
          .committed record.hybridTime record.state.tablets := by
        unfold next
        rw [hs]
      exact processes_of_not_completed hp hid hque (by rw [hd]; exact ⟨hs', hcmt, htabs⟩)
        hinv' hidle (by simp [hs]) fun _ => ⟨_, hd⟩
    | committed ht tablets =>
      rw [hs] at hall
      cases hall
    | aborted | applied ht tablets => cases hall
  · have hd : d.next record = d := by
      unfold next
      rcases hs with hs | hs <;> rw [hs]
    refine processes_of_not_completed hp hid hque ?_ hinv' hidle ?_ ?_
    · rw [hd]
      exact hagr'.of_sameCore hcore
    all_goals rcases hs with hs | hs <;> simp [hs]

variable (acts) in
omit [DecidableEq τ] in
/-- What `ProcessAborted` leaves of a transaction. -/
lemma processAborted_cases {request : TransactionStatePB ι τ}
    (hinv : ∀ t, m request.transactionId = some t → t.id = request.transactionId ∧
      t.Inv c ∧ t.Idle) :
    (m.processAborted request acts).2.nextNumber = acts.nextNumber ∧
    (m.processAborted request acts).2.updates = acts.updates ∧
    (m.processAborted request acts).2.leaderTerm = acts.leaderTerm ∧
    (∀ a ∈ (m.processAborted request acts).2.answers, a ∈ acts.answers ∨ a.result = none) ∧
    (∀ id, id ≠ request.transactionId → (m.processAborted request acts).1 id = m id) ∧
    (m request.transactionId = none ∧
      (m.processAborted request acts).1 request.transactionId = none ∨
    ∃ t t', m request.transactionId = some t ∧
      (m.processAborted request acts).1 request.transactionId = some t' ∧ SameCore t t' ∧
      t'.Inv c ∧ t'.replicating = none ∧ t'.requestQueue = []) := by
  unfold processAborted
  cases ht : m request.transactionId with
  | none => exact ⟨rfl, rfl, rfl, fun a ha => .inl ha, fun _ _ => rfl, .inl ⟨rfl, ht⟩⟩
  | some t =>
    obtain ⟨hid, h, -⟩ := hinv t ht
    obtain ⟨hcore, hinv', -⟩ := h.clearRequests acts
    have heq : t.processAborted acts = t.clearRequests acts := rfl
    dsimp only
    rw [heq, checkCompleted_of_not_completed]
    · rw [hcore.id, hid]
      refine ⟨rfl, rfl, rfl, fun a ha => ?_, fun id hne => update_of_ne hne _ _,
        .inr ⟨t, _, rfl, update_self .., hcore, hinv', rfl, rfl⟩⟩
      rcases mem_answers_clearRequests ha with ha | rfl
      · exact .inl ha
      · exact .inr rfl
    · rcases hinv'.status with hs | hs <;> simp [completed, hs]

end ManagedTransactions
