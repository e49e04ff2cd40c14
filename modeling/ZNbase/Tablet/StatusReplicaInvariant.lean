import ZNbase.Tablet.ManagedTransactions

/-!
# A replica of a status tablet

`ReplicaInv`: what a replica has of a transaction, and that calls and steps keep it. If the replica
leads, then a request that it has submitted in its term, or appended, is the one that the
transaction replicates (`live`). Requests are told apart by their numbers, of which none is used
twice.
-/

open List HybridTime TransactionState

namespace StatusReplica

variable {ι τ : Type} [DecidableEq ι] [DecidableEq τ] {id : ι}
  {log log' pending : List (StatusRecord ι τ)} {c c' : List (ι × τ)} {next next' term term' : ℕ}
    {lead : Option (List (StatusRecord ι τ))}
  {R : StatusReplica ι τ}

open ManagedTransactions

/-- The requests of a transaction that a replica has submitted. -/
def submittedOf (R : StatusReplica ι τ) (id : ι) : List (UpdateTxnOperationState ι τ) :=
  requestsOf id (R.submitted.map Prod.snd)

def pendingOf (id : ι) (pending : List (StatusRecord ι τ)) : List (UpdateTxnOperationState ι τ) :=
  requestsOf id (pending.map (·.operation))

/-- The requests of a transaction that are not done. -/
def places (R : StatusReplica ι τ) (id : ι) (pending : List (StatusRecord ι τ)) :
    List (UpdateTxnOperationState ι τ) :=
  queueOf (R.managed id) ++ R.submittedOf id ++ pendingOf id pending

/-- The requests of a transaction that can still be replicated in a term. -/
def live (R : StatusReplica ι τ) (id : ι) (term : ℕ) (pending : List (StatusRecord ι τ)) :
    List (UpdateTxnOperationState ι τ) :=
  requestsOf id ((R.submitted.filter (·.1 = term)).map Prod.snd) ++ pendingOf id pending

end StatusReplica

open ManagedTransactions StatusReplica in
/-- What a replica has of a transaction. `lead` has the pending records if it is the leader. -/
structure ReplicaInv {ι τ : Type} [DecidableEq ι] [DecidableEq τ] (id : ι)
    (log : List (StatusRecord ι τ)) (c : List (ι × τ)) (next term : ℕ)
    (lead : Option (List (StatusRecord ι τ))) (R : StatusReplica ι τ) : Prop where
  applied_le : R.applied ≤ log.length
  agrees : Agrees (decision id (log.take R.applied)) (R.managed id)
  inv : ∀ t, R.managed id = some t → t.id = id ∧ t.Inv c ∧ t.Idle
  terms : ∀ x ∈ R.submitted, x.1 ≤ term
  numbers : ∀ k, numbered (R.places id (lead.getD [])) k ≤ 1
  bound : ∀ k, numbered (R.places id (lead.getD [])) k ≠ 0 → k < next
  applied_eq : lead.isSome → R.applied = log.length
  lost : lead.isSome → R.lost = []
  live : ∀ pending, lead = some pending → ∀ r ∈ R.live id term pending, ∃ t,
    R.managed id = some t ∧ t.replicating = some r ∧ (decision id log).Allows r.request.status

namespace ReplicaInv

variable {ι τ : Type} [DecidableEq ι] [DecidableEq τ] {id : ι}
  {log log' pending : List (StatusRecord ι τ)} {c c' : List (ι × τ)} {next next' term term' : ℕ}
    {lead : Option (List (StatusRecord ι τ))}
  {R : StatusReplica ι τ} {new : List (UpdateTxnOperationState ι τ)} {m : ManagedTransactions ι τ}

open ManagedTransactions StatusReplica

/-- Numbers are taken, and tablets confirm. -/
lemma mono_next (h : ReplicaInv id log c next term lead R) (hc : c ⊆ c') (hnext : next ≤ next') :
    ReplicaInv id log c' next' term lead R :=
  { h with
    inv := fun t ht => ⟨(h.inv t ht).1, (h.inv t ht).2.1.mono hc, (h.inv t ht).2.2⟩
    bound := fun k hk => (h.bound k hk).trans_le hnext }

/-- A replica that does not lead is not touched by what the others do. -/
lemma mono (h : ReplicaInv id log c next term none R) (hlog : log <+: log') (hc : c ⊆ c')
    (hnext : next ≤ next') (hterm : term ≤ term') : ReplicaInv id log' c' next' term' none R := by
  obtain ⟨rest, rfl⟩ := hlog
  obtain ⟨-, -, hinv, -, hnum, hbnd, -⟩ := h.mono_next hc hnext
  refine ⟨?_, ?_, hinv, fun x hx => (h.terms x hx).trans hterm, hnum, hbnd, by simp,
    by simp, by simp⟩
  · rw [length_append]
    exact h.applied_le.trans (Nat.le_add_right _ _)
  · rw [take_append_of_le_length h.applied_le]
    exact h.agrees

/-- The leader stops to lead. Some of its pending records are replicated. -/
lemma depose (h : ReplicaInv id log c next term (some pending) R)
    (lost : List (UpdateTxnOperationState ι τ)) :
    ReplicaInv id log c next term none { R with lost } := by
  have hle : ∀ k, numbered (R.places id []) k ≤ numbered (R.places id pending) k := by
    intro k
    simp only [places, numbered_append]
    exact Nat.add_le_add_left (Nat.zero_le _) _
  exact ⟨h.applied_le, h.agrees, h.inv, h.terms, fun k => (hle k).trans (h.numbers k),
    fun k hk => h.bound k ((Nat.pos_of_ne_zero hk).trans_le (hle k)).ne', by simp, by simp, by simp⟩

/-- A replica that has processed everything starts to lead a new term. -/
lemma elect (h : ReplicaInv id log c next term none R) (happl : R.applied = log.length)
    (hlost : R.lost = []) : ReplicaInv id log c next (term + 1) (some []) R := by
  refine ⟨h.applied_le, h.agrees, h.inv, fun x hx => (h.terms x hx).trans (Nat.le_succ _),
    h.numbers, h.bound, fun _ => happl, fun _ => hlost, ?_⟩
  rintro pending hpend r hr
  cases hpend
  -- what the replica has submitted is bound to earlier terms
  have hnone : R.submitted.filter (fun x => decide (x.1 = term + 1)) = [] := by
    refine filter_eq_nil_iff.2 fun x hx => ?_
    have := h.terms x hx
    simp only [decide_eq_true_eq]
    omega
  simp [StatusReplica.live, hnone, pendingOf, requestsOf] at hr

omit [DecidableEq τ] in
/-- What is submitted is added to what was. -/
lemma submittedOf_append (R : StatusReplica ι τ) (m : ManagedTransactions ι τ)
    (new : List (UpdateTxnOperationState ι τ)) :
    submittedOf { R with managed := m, submitted := R.submitted ++ new.map (term, ·) } id =
      R.submittedOf id ++ requestsOf id new := by
  simp [submittedOf, requestsOf]

omit [DecidableEq τ] in
/-- New requests are live in the term. -/
lemma live_append (R : StatusReplica ι τ) (m : ManagedTransactions ι τ)
    (new : List (UpdateTxnOperationState ι τ)) (pending : List (StatusRecord ι τ)) :
    ∀ r ∈ StatusReplica.live { R with managed := m, submitted := R.submitted ++ new.map (term, ·) }
      id term pending,
      r ∈ R.live id term pending ∨ r ∈ requestsOf id new := by
  intro r hr
  simp only [StatusReplica.live, requestsOf, filter_append, map_append, mem_append, mem_filter,
    mem_map] at hr ⊢
  rcases hr with (hr | ⟨⟨x, ⟨hx, -⟩, rfl⟩, hid⟩) | hr
  · exact .inl (.inl hr)
  · obtain ⟨r', hr', rfl⟩ := hx
    exact .inr ⟨hr', hid⟩
  · exact .inl (.inr hr)

omit [DecidableEq ι] [DecidableEq τ] in
/-- The numbers of requests after a call that has used them as it must. -/
lemma numbers_of_budget {l l' : List (UpdateTxnOperationState ι τ)}
    (hnum : ∀ k, numbered l k ≤ 1) (hbnd : ∀ k, numbered l k ≠ 0 → k < next)
    (hnext : next ≤ next') (hbudget : ∀ k, numbered l' k ≤ numbered l k + fresh next next' k) :
    (∀ k, numbered l' k ≤ 1) ∧ ∀ k, numbered l' k ≠ 0 → k < next' := by
  rw [← forall_and]
  intro k
  have h₁ := hnum k
  have h₂ := hbnd k
  have h₃ := hbudget k
  unfold fresh at h₃
  split_ifs at h₃ <;> omega

/-- Requests are submitted in the current term. -/
lemma terms_append (h : ReplicaInv id log c next term lead R) :
    ∀ x ∈ R.submitted ++ new.map (term, ·), x.1 ≤ term := by
  simpa [or_imp, forall_and] using h.terms

/-- A call that keeps what is replicating. -/
lemma keeps (h : ReplicaInv id log c next term lead R) {leader : Bool} (hnext : next ≤ next')
    (hmoves : (R.managed id = none ∧ m id = none ∧ requestsOf id new = []) ∨
      ∃ t t', R.managed id = some t ∧ m id = some t' ∧
        Moves c leader t t' next next' (requestsOf id new)) :
    ReplicaInv id log c next' term lead
      { R with managed := m, submitted := R.submitted ++ new.map (term, ·) } := by
  have hterms : ∀ x ∈ R.submitted ++ new.map (term, ·), x.1 ≤ term := h.terms_append
  rcases hmoves with ⟨hnone, hnone', hnew⟩ | ⟨t, t', ht, ht', hmove⟩
  · -- the replica does not manage the transaction
    have hplac : places { R with managed := m, submitted := R.submitted ++ new.map (term, ·) } id
        (lead.getD []) = R.places id (lead.getD []) := by
      simp only [places, hnone, hnone', submittedOf_append, hnew, append_nil]
    refine ⟨h.applied_le, ?_, ?_, hterms, fun k => ?_, fun k hk => ?_, h.applied_eq, h.lost, ?_⟩
    · change Agrees _ (m id)
      rw [hnone', ← hnone]
      exact h.agrees
    · intro t ht
      cases hnone'.symm.trans ht
    · rw [hplac]
      exact h.numbers k
    · rw [hplac] at hk
      exact (h.bound k hk).trans_le hnext
    · intro pending hpend r hr
      rcases live_append R m new pending r hr with hr | hr
      · obtain ⟨t, ht, -⟩ := h.live pending hpend r hr
        cases hnone.symm.trans ht
      · rw [hnew] at hr
        cases hr
  · -- it does, and the transaction makes a move
    obtain ⟨hid, -⟩ := h.inv t ht
    have hagr := h.agrees
    rw [ht] at hagr
    have hbudget : ∀ k,
        numbered (places { R with managed := m, submitted := R.submitted ++ new.map (term, ·) } id
          (lead.getD [])) k ≤ numbered (R.places id (lead.getD [])) k + fresh next next' k := by
      intro k
      have hb := hmove.budget k
      simp only [places, queueOf, ht, ht', submittedOf_append, numbered_append]
      omega
    obtain ⟨hnum, hbnd⟩ := numbers_of_budget h.numbers h.bound hnext hbudget
    refine ⟨h.applied_le, ?_, ?_, hterms, hnum, hbnd, h.applied_eq, h.lost, ?_⟩
    · change Agrees _ (m id)
      rw [ht']
      exact hagr.of_sameCore hmove.core
    · intro t₁ ht₁
      cases ht'.symm.trans ht₁
      exact ⟨hmove.core.id.trans hid, hmove.inv, hmove.idle⟩
    · intro pending hpend r hr
      refine ⟨t', ht', ?_⟩
      have hlog : log.take R.applied = log := by
        rw [h.applied_eq (by rw [hpend]; rfl), take_length]
      rw [hlog] at hagr
      rcases live_append R m new pending r hr with hr | hr
      · obtain ⟨t₁, ht₁, hrepl, hallo⟩ := h.live pending hpend r hr
        cases ht.symm.trans ht₁
        exact ⟨(hmove.kept r hrepl).1, hallo⟩
      · rcases hmove.submits with hnew | ⟨r', hnew, hrepl, hall, -⟩
        · rw [hnew] at hr
          cases hr
        · rw [hnew] at hr
          obtain rfl := mem_singleton.1 hr
          exact ⟨hrepl, (hagr.of_sameCore hmove.core).allows_iff.2 hall⟩

/-! ## Steps -/

variable {lead' : Option (List (StatusRecord ι τ))} {record : StatusRecord ι τ}
  {acts acts' : PostponedLeaderActions ι τ}

omit [DecidableEq τ] in
/-- The decision after one more record. -/
lemma decision_take_succ {i : ℕ} (h : log[i]? = some record) :
    decision id (log.take (i + 1)) =
      if record.state.transactionId = id then (decision id (log.take i)).next record
      else decision id (log.take i) := by
  rw [take_add_one, h, Option.toList_some, decision_append_singleton]

/-- A replica processes the next record. What this means for a leader is left to `hlead`. -/
lemma process (h : ReplicaInv id log c acts.nextNumber term lead R) (hlog : log <+: log')
    (hrec : log'[R.applied]? = some record)
    (hp : Processes c (decision record.state.transactionId (log'.take R.applied)) record R.managed m
      acts acts' new)
    (hpending : ∀ k, numbered (pendingOf id (lead'.getD [])) k ≤
      numbered (pendingOf id (lead.getD [])) k)
    (hlead : lead'.isSome → R.applied + 1 = log'.length ∧ R.lost = [])
    (hlive : ∀ pending, lead' = some pending → ∀ r ∈ R.live id term pending, ∃ t,
      m id = some t ∧ t.replicating = some r ∧ (decision id log').Allows r.request.status) :
    ReplicaInv id log' c acts'.nextNumber term lead'
      { R with
        applied := R.applied + 1
        managed := m
        submitted := R.submitted ++ new.map (term, ·) } := by
  have hlt : R.applied < log'.length := (List.getElem?_eq_some_iff.1 hrec).1
  have htake : log'.take R.applied = log.take R.applied := by
    obtain ⟨rest, rfl⟩ := hlog
    exact take_append_of_le_length h.applied_le
  have hagr : Agrees (decision id (log'.take (R.applied + 1))) (m id) := by
    rw [decision_take_succ hrec]
    split_ifs with hid
    · subst hid
      exact hp.agrees
    · rw [hp.others id (Ne.symm hid), htake]
      exact h.agrees
  have hinv : ∀ t, m id = some t → t.id = id ∧ t.Inv c ∧ t.Idle := by
    by_cases hid : record.state.transactionId = id
    · subst hid
      exact hp.inv
    · rw [hp.others id (Ne.symm hid)]
      exact h.inv
  -- what is submitted belongs to the transaction of the record
  have hown : requestsOf id new = if record.state.transactionId = id then new else [] := by
    split_ifs with hid
    · subst hid
      exact requestsOf_self hp.own
    · exact requestsOf_of_ne hp.own (Ne.symm hid)
  -- a number leaves the queue when its request is submitted
  have hbudget : ∀ k, numbered (queueOf (m id)) k + numbered (requestsOf id new) k ≤
      numbered (queueOf (R.managed id)) k + fresh acts.nextNumber acts'.nextNumber k := by
    intro k
    rw [hown]
    split_ifs with hid
    · subst hid
      exact hp.budget k
    · rw [hp.others id (Ne.symm hid)]
      simp [numbered]
  have hplac : ∀ k, numbered (places { R with
        applied := R.applied + 1
        managed := m
        submitted := R.submitted ++ new.map (term, ·) } id (lead'.getD [])) k ≤
      numbered (R.places id (lead.getD [])) k + fresh acts.nextNumber acts'.nextNumber k := by
    intro k
    have hsub : submittedOf { R with
        applied := R.applied + 1
        managed := m
        submitted := R.submitted ++ new.map (term, ·) } id = R.submittedOf id ++
          requestsOf id new :=
      submittedOf_append R m new
    have hb := hbudget k
    have hpend := hpending k
    simp only [places, hsub, numbered_append]
    omega
  obtain ⟨hnum, hbnd⟩ := numbers_of_budget h.numbers h.bound hp.next hplac
  refine ⟨hlt, hagr, hinv, h.terms_append, hnum, hbnd, fun hl => (hlead hl).1,
    fun hl => (hlead hl).2, fun pending hpend r hr => ?_⟩
  -- a live request was live before, or was submitted now
  rcases live_append R m new pending r hr with hold | hnew
  · exact hlive pending hpend r hold
  rw [hown] at hnew
  split_ifs at hnew with hid
  · subst hid
    obtain ⟨t, ht, hrepl, hallo⟩ := hp.submits r hnew
    refine ⟨t, ht, hrepl, ?_⟩
    -- the leader has applied its whole log
    have hall : log'.take (R.applied + 1) = log' := by
      rw [(hlead (by rw [hpend]; rfl)).1, take_length]
    rw [hall, ht] at hagr
    exact hagr.allows_iff.2 hallo
  · cases hnew

variable {r : UpdateTxnOperationState ι τ} {x : ℕ × UpdateTxnOperationState ι τ}

omit [DecidableEq ι] [DecidableEq τ] in
lemma numbered_pos {l : List (UpdateTxnOperationState ι τ)} (h : r ∈ l) : 1 ≤ numbered l r.number :=
  countP_pos_iff.2 ⟨r, h, by simp⟩

section

omit [DecidableEq τ]

/-- A live request is submitted or pending. -/
lemma mem_submittedOf_of_live (h : r ∈ R.live id term pending) :
    r ∈ R.submittedOf id ∨ r ∈ pendingOf id pending := by
  rcases mem_append.1 h with h | h
  · left
    simp only [submittedOf, requestsOf, mem_filter, mem_map] at h ⊢
    obtain ⟨⟨x, ⟨hx, -⟩, rfl⟩, hid⟩ := h
    exact ⟨⟨x, hx, rfl⟩, hid⟩
  · exact .inr h

lemma pendingOf_cons (record : StatusRecord ι τ) (pending : List (StatusRecord ι τ)) :
    pendingOf id (record :: pending) =
      if record.state.transactionId = id then record.operation :: pendingOf id pending
      else pendingOf id pending := by
  simp only [pendingOf, requestsOf, map_cons, filter_cons, decide_eq_true_eq]
  rfl

/-- It stays live when a record is pending before it. -/
lemma mem_live_cons (h : r ∈ R.live id term pending) : r ∈ R.live id term (record :: pending) := by
  rcases mem_append.1 h with h | h
  · exact mem_append_left _ h
  · refine mem_append_right _ ?_
    rw [pendingOf_cons]
    split_ifs
    · exact mem_cons_of_mem _ h
    · exact h

end

/-- No other request of a transaction can be replicated while one is pending. -/
lemma live_of_pending (h : ReplicaInv id log c next term (some (record :: pending)) R)
    (hid : record.state.transactionId = id) : ∀ r, r ∉ R.live id term pending := by
  intro r hr
  have hcons : pendingOf id (record :: pending) = record.operation :: pendingOf id pending := by
    rw [pendingOf_cons, if_pos hid]
  obtain ⟨t, ht, hrepl, -⟩ := h.live _ rfl r (mem_live_cons hr)
  obtain ⟨t₁, ht₁, hrepl₁, -⟩ := h.live _ rfl record.operation
    (mem_append_right _ (by rw [hcons]; exact mem_cons_self))
  cases ht.symm.trans ht₁
  cases hrepl.symm.trans hrepl₁
  -- the number of the request would be there twice
  have hnum := h.numbers record.operation.number
  simp only [Option.getD_some, places, numbered_append, hcons, numbered_cons, if_true] at hnum
  rcases mem_submittedOf_of_live hr with hr | hr
  all_goals
    have := numbered_pos hr
    omega

/-- The leader processes its first pending record, as a leader or not. -/
lemma commit (h : ReplicaInv id log c acts.nextNumber term (some (record :: pending)) R)
    (hp : Processes c (decision record.state.transactionId log) record R.managed m acts acts' new) :
    ReplicaInv id (log ++ [record]) c acts'.nextNumber term (some pending)
      { R with
        applied := R.applied + 1
        managed := m
        submitted := R.submitted ++ new.map (term, ·) } := by
  have happl := h.applied_eq rfl
  have htake : (log ++ [record]).take R.applied = log := by
    rw [happl, take_left' rfl]
  refine h.process (prefix_append _ _) ?_ (htake.symm ▸ hp) (fun k => ?_)
    (fun _ => ⟨by simp [happl], h.lost rfl⟩) ?_
  · rw [happl, getElem?_append_right le_rfl, Nat.sub_self]
    rfl
  · simp only [Option.getD_some, pendingOf_cons]
    split_ifs
    · rw [numbered_cons]
      exact Nat.le_add_left _ _
    · exact le_rfl
  · rintro _ ⟨⟩ r hr
    -- no other request of this transaction is live, one of another is as it was
    by_cases hid : record.state.transactionId = id
    · exact absurd hr (h.live_of_pending hid r)
    · obtain ⟨t, ht, hrepl, hall⟩ := h.live _ rfl r (mem_live_cons hr)
      refine ⟨t, (hp.others id (Ne.symm hid)).trans ht, hrepl, ?_⟩
      rwa [decision_append_singleton, if_neg hid]

/-- A replica that does not lead processes the next record. -/
lemma apply (h : ReplicaInv id log c acts.nextNumber term none R)
    (hrec : log[R.applied]? = some record)
    (hp : Processes c (decision record.state.transactionId (log.take R.applied)) record R.managed m
    acts acts' new) :
    ReplicaInv id log c acts'.nextNumber term none
      { R with
        applied := R.applied + 1
        managed := m
        submitted := R.submitted ++ new.map (term, ·) } :=
  h.process (prefix_refl _) hrec hp (fun _ => le_rfl) (by simp) (by simp)

variable (id) in
/-- A request is submitted, or it is not any more. -/
lemma numbered_submittedOf_erase (hx : x ∈ R.submitted) (k : ℕ) :
    numbered (R.submittedOf id) k = numbered (requestsOf id [x.2]) k +
        numbered (submittedOf { R with submitted := R.submitted.erase x } id) k := by
  have hperm : List.Perm (R.submittedOf id)
      (requestsOf id [x.2] ++ submittedOf { R with submitted := R.submitted.erase x } id) := by
    have h₁ : List.Perm (R.submitted.map Prod.snd) ([x.2] ++ (R.submitted.erase x).map Prod.snd) :=
      (perm_cons_erase hx).map Prod.snd
    have h₂ := h₁.filter fun r => decide (r.request.transactionId = id)
    rwa [filter_append] at h₂
  rw [← numbered_append]
  exact hperm.countP_eq _

lemma mem_live_erase
    (h : r ∈ StatusReplica.live { R with submitted := R.submitted.erase x, managed := m } id term
      pending) : r ∈ R.live id term pending := by
  rcases mem_append.1 h with h | h
  · refine mem_append_left _ ?_
    simp only [requestsOf, mem_filter, mem_map] at h ⊢
    obtain ⟨⟨y, ⟨hy, hterm⟩, rfl⟩, hid⟩ := h
    exact ⟨⟨y, ⟨mem_of_mem_erase hy, hterm⟩, rfl⟩, hid⟩
  · exact mem_append_right _ h

/-- Requests are done with. Those of the transaction may be gone, if none of them can still be
replicated. -/
lemma dropRequests (h : ReplicaInv id log c next term lead R)
    {submitted : List (ℕ × UpdateTxnOperationState ι τ)} {lost : List (UpdateTxnOperationState ι τ)}
    (hm : m id = R.managed id ∨ ∃ t t', R.managed id = some t ∧ m id = some t' ∧ SameCore t t' ∧
      t'.Inv c ∧ t'.requestQueue = []) (hsub : submitted ⊆ R.submitted)
    (hnumbered : ∀ k, numbered (submittedOf { R with submitted } id) k ≤
      numbered (R.submittedOf id) k)
    (hlost : lead.isSome → lost = [])
    (hlive : ∀ pending, lead = some pending →
      ∀ r ∈ StatusReplica.live { R with submitted } id term pending,
        r ∈ R.live id term pending ∧ m id = R.managed id) :
    ReplicaInv id log c next term lead { R with managed := m, submitted, lost } := by
  -- each number is in at most as many places as before
  have hplac : ∀ k, numbered (places { R with managed := m, submitted, lost } id (lead.getD [])) k ≤
      numbered (R.places id (lead.getD [])) k := by
    intro k
    have hk := hnumbered k
    have hsame : submittedOf { R with managed := m, submitted, lost } id =
        submittedOf { R with submitted } id := rfl
    have hque : numbered (queueOf (m id)) k ≤ numbered (queueOf (R.managed id)) k := by
      rcases hm with hm | ⟨t, t', -, ht', -, -, hque⟩
      · rw [hm]
      · rw [ht', show queueOf (some t') = [] from hque]
        exact Nat.zero_le _
    simp only [places, numbered_append, hsame]
    omega
  refine ⟨h.applied_le, ?_, ?_, fun x hx => h.terms x (hsub hx),
    fun k => (hplac k).trans (h.numbers k), fun k hk => h.bound k ?_, h.applied_eq, hlost, ?_⟩
  · change Agrees _ (m id)
    have hagr := h.agrees
    rcases hm with hm | ⟨t, t', ht, ht', hcore, -⟩
    · rwa [hm]
    · rw [ht] at hagr
      rw [ht']
      exact hagr.of_sameCore hcore
  · intro t₁ ht₁
    rcases hm with hm | ⟨t, t', ht, ht', hcore, hinv, hque⟩
    · exact h.inv t₁ (hm ▸ ht₁)
    · cases ht'.symm.trans ht₁
      exact ⟨hcore.id.trans (h.inv t ht).1, hinv, fun _ => hque⟩
  · exact ((Nat.pos_of_ne_zero hk).trans_le (hplac k)).ne'
  · intro pending hpend r hr
    obtain ⟨hr, hm⟩ := hlive pending hpend r hr
    obtain ⟨t, ht, hrest⟩ := h.live pending hpend r hr
    exact ⟨t, hm.trans ht, hrest⟩

omit [DecidableEq τ] in
variable (acts) in
/-- What a failed request leaves of a transaction. -/
lemma managed_processAborted {request : TransactionStatePB ι τ}
    (hinv : ∀ t, R.managed request.transactionId = some t → t.id = request.transactionId ∧
      t.Inv c ∧ t.Idle)
    (id : ι) :
    (R.managed.processAborted request acts).1 id = R.managed id ∨
      request.transactionId = id ∧ ∃ t t', R.managed id = some t ∧
        (R.managed.processAborted request acts).1 id = some t' ∧ SameCore t t' ∧ t'.Inv c ∧
        t'.requestQueue = [] := by
  obtain ⟨-, -, -, -, hoth, hcases⟩ := processAborted_cases acts hinv
  by_cases hid : request.transactionId = id
  · subst hid
    rcases hcases with ⟨hnone, hnone'⟩ | ⟨t, t', ht, ht', hcore, hinv', -, hque⟩
    · exact .inl (hnone'.trans hnone.symm)
    · exact .inr ⟨rfl, t, t', ht, ht', hcore, hinv', hque⟩
  · exact .inl (hoth id (Ne.symm hid))

lemma numbered_submittedOf_erase_le (hx : x ∈ R.submitted) (k : ℕ) :
    numbered (submittedOf { R with submitted := R.submitted.erase x } id) k ≤
      numbered (R.submittedOf id) k := by
  rw [numbered_submittedOf_erase id hx]
  exact Nat.le_add_left _ _

/-- A submitted request fails. If it is one of the transaction, then it was the one that was
replicating, or none was. -/
lemma fail (h : ReplicaInv id log c next term lead R) (hx : x ∈ R.submitted)
    (hinv : ∀ t, R.managed x.2.request.transactionId = some t → t.id = x.2.request.transactionId ∧
      t.Inv c ∧ t.Idle)
    (hsafe : ∀ t r, R.managed x.2.request.transactionId = some t → t.replicating = some r →
      r.number = x.2.number) :
    ReplicaInv id log c next term lead { R with
      managed := (R.managed.processAborted x.2.request acts).1
      submitted := R.submitted.erase x } := by
  have hm := managed_processAborted acts hinv id
  refine h.dropRequests (hm.imp_right And.right) erase_subset
    (numbered_submittedOf_erase_le hx) h.lost fun pending hpend r hr => ?_
  have hlive := mem_live_erase hr
  refine ⟨hlive, hm.resolve_right ?_⟩
  rintro ⟨rfl, -⟩
  -- a request that can still be replicated would have the number of the one that failed
  obtain ⟨t₁, ht₁, hrepl, -⟩ := h.live pending hpend r hlive
  have hnum := hsafe t₁ r ht₁ hrepl
  have hnumbers := h.numbers r.number
  have herase := numbered_submittedOf_erase x.2.request.transactionId hx r.number
  have hself : numbered (requestsOf x.2.request.transactionId [x.2]) r.number = 1 := by
    simp [requestsOf, numbered, hnum]
  simp only [hpend, Option.getD_some, places, numbered_append] at hnumbers
  rcases mem_submittedOf_of_live hr with hr | hr
  all_goals
    have := numbered_pos hr
    omega

/-- A request that was lost is reported. -/
lemma failLost (h : ReplicaInv id log c next term none R) {x : UpdateTxnOperationState ι τ}
    (hinv : ∀ t, R.managed x.request.transactionId = some t → t.id = x.request.transactionId ∧
      t.Inv c ∧ t.Idle)
    (lost : List (UpdateTxnOperationState ι τ)) :
    ReplicaInv id log c next term none { R with
      managed := (R.managed.processAborted x.request acts).1
      lost } :=
  h.dropRequests ((managed_processAborted _ hinv id).imp_right And.right) (List.Subset.refl _)
    (fun _ => le_rfl) (by simp) (by simp)

/-- The leader appends a request of its term. -/
lemma append (h : ReplicaInv id log c next term (some pending) R) (hx : x ∈ R.submitted)
    (hterm : x.1 = term) (ht : HybridTime) :
    ReplicaInv id log c next term (some (pending ++ [⟨x.2, ht⟩])) { R with
      submitted := R.submitted.erase x } := by
  -- the request moves from the submitted ones to the pending ones
  have hpend : pendingOf id (pending ++ [(⟨x.2, ht⟩ : StatusRecord ι τ)]) =
      pendingOf id pending ++ requestsOf id [x.2] := by
    simp [pendingOf, requestsOf]
  have hplac : ∀ k, numbered (places { R with submitted := R.submitted.erase x } id
      (pending ++ [⟨x.2, ht⟩])) k = numbered (R.places id pending) k := by
    intro k
    have herase := numbered_submittedOf_erase id hx k
    simp only [places, numbered_append, hpend]
    omega
  refine ⟨h.applied_le, h.agrees, h.inv, fun y hy => h.terms y (erase_subset hy),
    fun k => (hplac k).trans_le (h.numbers k),
    fun k hk => h.bound k fun hzero => hk ((hplac k).trans hzero), h.applied_eq, h.lost, ?_⟩
  rintro _ ⟨⟩ r hr
  refine h.live pending rfl r ?_
  rcases mem_append.1 hr with hr' | hr'
  · exact mem_live_erase (mem_append_left _ hr')
  rw [hpend] at hr'
  -- the request itself was live among the submitted ones
  rcases mem_append.1 hr' with hr' | hr'
  · exact mem_append_right _ hr'
  · refine mem_append_left _ ?_
    simp only [requestsOf, mem_filter, mem_singleton, mem_map] at hr' ⊢
    obtain ⟨rfl, hid⟩ := hr'
    exact ⟨⟨x, ⟨hx, by simpa using hterm⟩, rfl⟩, hid⟩

/-- A transaction is created. -/
lemma create (h : ReplicaInv id log c next term lead R) (hnone : R.managed id = none)
    (hd : decision id (log.take R.applied) = .undecided) (lastTouch : HybridTime) :
    ReplicaInv id log c next term lead
      { R with managed := Function.update R.managed id (some { id, lastTouch }) } := by
  have hplac : places { R with managed := Function.update R.managed id (some { id, lastTouch }) } id
      (lead.getD []) = R.places id (lead.getD []) := by
    simp [places, queueOf, hnone, submittedOf]
  refine ⟨h.applied_le, ?_, ?_, h.terms, hplac ▸ h.numbers,
    fun k hk => h.bound k (hplac ▸ hk), h.applied_eq, h.lost, ?_⟩
  · rw [hd]
    simp [Agrees]
  · intro t ht
    dsimp only at ht
    rw [Function.update_self] at ht
    cases ht
    exact ⟨rfl, inv_new _ _⟩
  · intro pending hpend r hr
    obtain ⟨t, ht, -⟩ := h.live pending hpend r hr
    cases hnone.symm.trans ht

end ReplicaInv
