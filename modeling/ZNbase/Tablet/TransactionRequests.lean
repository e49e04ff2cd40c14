import ZNbase.Tablet.TransactionCoordinator
import Mathlib.Data.List.Pairwise

/-!
# Requests of a transaction

What the calls of a coordinator do with the requests of one transaction.

- `TransactionState.Inv`: what is replicating and what is queued can follow on the status of the
  transaction in this order. No abort comes after a commit, and the record that completes a
  committed transaction is asked for only when every involved tablet has confirmed.
- `TransactionState.Outcome`: a call submits at most one request, which is then the one that is
  replicating, and no number of a request is used twice.
- `TransactionState.Keeps`: a call that leaves the status and what is replicating alone.
-/

open List HybridTime TransactionState Nat

namespace TransactionState

variable {ι τ : Type} {c : List (ι × τ)} {t t' : TransactionState ι τ}
  {acts acts' : PostponedLeaderActions ι τ} {r : UpdateTxnOperationState ι τ} {timeout : ℤ}
  {now : HybridTime}

/-- What is replicating and then what is queued. -/
def requests (t : TransactionState ι τ) : List (UpdateTxnOperationState ι τ) :=
  t.replicating.toList ++ t.requestQueue

/-- The records that can follow on a status. -/
def Allowed : TransactionStatus → TransactionStatus → Prop
  | .pending, record => record = .created ∨ record = .pending ∨ record = .committed ∨
    record = .aborted
  | .committed, record => record = .appliedInAllInvolvedTablets
  | _, _ => False

/-- The requests of a transaction can follow on its status. `c` are the transactions and tablets
that were confirmed. -/
structure Inv (c : List (ι × τ)) (t : TransactionState ι τ) : Prop where
  status : t.status = .pending ∨ t.status = .committed
  ids : ∀ r ∈ t.requests, r.request.transactionId = t.id
  kinds : ∀ r ∈ t.requests, r.request.status ≠ .appliedInOneOfInvolvedTablets
  noCreated : ∀ r ∈ t.requestQueue, r.request.status ≠ .created
  order : t.requests.Pairwise fun r r' =>
    r.request.status = .committed → r'.request.status ≠ .aborted
  decided : t.status = .committed → ∀ r ∈ t.requests, r.request.status ≠ .aborted
  applied : ∀ r ∈ t.requests, r.request.status = .appliedInAllInvolvedTablets →
    t.status = .committed ∧ ∀ x ∈ t.involvedTablets, (t.id, x.1) ∈ c
  confirmed : ∀ x ∈ t.involvedTablets, x.2 = true → (t.id, x.1) ∈ c
  count : t.status = .committed →
    t.involvedTablets.countP (fun x => !x.2) ≤ t.tabletsWithNotAppliedIntents

/-- A transaction is completed once it is aborted or applied everywhere. -/
lemma completed_iff :
    t.completed = true ↔ t.status = .aborted ∨ t.status = .appliedInAllInvolvedTablets := by
  simp [completed]

/-- Requests wait only for another one. -/
def Idle (t : TransactionState ι τ) : Prop := t.replicating = none → t.requestQueue = []

/-- How often a number is the number of a request. -/
def numbered (l : List (UpdateTxnOperationState ι τ)) (k : ℕ) : ℕ := l.countP (·.number = k)

/-- Requests with a number are counted in both parts of a list. -/
lemma numbered_append (l l' : List (UpdateTxnOperationState ι τ)) (k : ℕ) :
    numbered (l ++ l') k = numbered l k + numbered l' k := countP_append

lemma numbered_singleton (r : UpdateTxnOperationState ι τ) (k : ℕ) :
    numbered [r] k = if r.number = k then 1 else 0 := by
  simp [numbered]

lemma numbered_cons (r : UpdateTxnOperationState ι τ) (l : List (UpdateTxnOperationState ι τ))
    (k : ℕ) : numbered (r :: l) k = (if r.number = k then 1 else 0) + numbered l k := by
  rw [← singleton_append, numbered_append, numbered_singleton]

/-- Whether a number was taken between two values of the next number. -/
def fresh (next next' k : ℕ) : ℕ := if next ≤ k ∧ k < next' then 1 else 0

/-- A call from `t` to `t'` has submitted `new`. -/
structure Outcome (t t' : TransactionState ι τ) (acts acts' : PostponedLeaderActions ι τ)
    (new : List (UpdateTxnOperationState ι τ)) : Prop where
  leaderTerm : acts'.leaderTerm = acts.leaderTerm
  next : acts.nextNumber ≤ acts'.nextNumber
  updates : acts'.updates = acts.updates ++ new
  budget : ∀ k, numbered t'.requestQueue k + numbered new k ≤
    numbered t.requestQueue k + fresh acts.nextNumber acts'.nextNumber k
  submits : new = [] ∨ ∃ r, new = [r] ∧ t'.replicating = some r ∧
    Allowed t'.status r.request.status ∧ acts.leader = true

/-- A call that does nothing. -/
lemma Outcome.refl (t : TransactionState ι τ) (acts : PostponedLeaderActions ι τ) :
    Outcome t t acts acts [] :=
  ⟨rfl, le_rfl, (append_nil _).symm, fun k => by simp [numbered], .inl rfl⟩

/-- The transaction is what it was, as far as its requests do not matter. -/
structure SameCore (t t' : TransactionState ι τ) : Prop where
  id : t'.id = t.id
  status : t'.status = t.status
  commitTime : t'.commitTime = t.commitTime
  tablets : t'.involvedTablets.map Prod.fst = t.involvedTablets.map Prod.fst

lemma SameCore.refl (t : TransactionState ι τ) : SameCore t t := ⟨rfl, rfl, rfl, rfl⟩

variable {t'' : TransactionState ι τ}

/-- What two calls keep, both keep together. -/
lemma SameCore.trans (h : SameCore t t') (h' : SameCore t' t'') : SameCore t t'' :=
  ⟨h'.id.trans h.id, h'.status.trans h.status, h'.commitTime.trans h.commitTime,
    h'.tablets.trans h.tablets⟩

/-- A call that leaves the status and what is replicating alone. -/
structure Keeps (c : List (ι × τ)) (t t' : TransactionState ι τ)
    (acts acts' : PostponedLeaderActions ι τ) (new : List (UpdateTxnOperationState ι τ)) :
      Prop where
  outcome : Outcome t t' acts acts' new
  core : SameCore t t'
  kept : ∀ r, t.replicating = some r → t'.replicating = some r ∧ new = []
  inv : Inv c t'
  idle : Idle t'
  answers : acts'.answers = acts.answers

/-- A call with the result `res` leaves the status and what is replicating alone. -/
def Kept (c : List (ι × τ)) (t : TransactionState ι τ) (acts : PostponedLeaderActions ι τ)
    (res : TransactionState ι τ × PostponedLeaderActions ι τ) : Prop :=
  ∃ new, Keeps c t res.1 acts res.2 new

/-! ## More requests -/

/-- The invariant holds for more tablets that have applied. -/
lemma Inv.mono {c' : List (ι × τ)} (h : Inv c t) (hc : c ⊆ c') : Inv c' t :=
  { h with
    applied := fun r hr hs => ⟨(h.applied r hr hs).1, fun x hx => hc ((h.applied r hr hs).2 x hx)⟩
    confirmed := fun x hx hx' => hc (h.confirmed x hx hx') }

/-- A request can come after those of a transaction. -/
structure CanFollow (c : List (ι × τ)) (t : TransactionState ι τ)
    (r : UpdateTxnOperationState ι τ) :
    Prop where
  id : r.request.transactionId = t.id
  kind : r.request.status ≠ .appliedInOneOfInvolvedTablets
  aborted : r.request.status = .aborted →
    t.status = .pending ∧ ∀ x ∈ t.requests, x.request.status ≠ .committed
  applied : r.request.status = .appliedInAllInvolvedTablets →
    t.status = .committed ∧ ∀ x ∈ t.involvedTablets, (t.id, x.1) ∈ c

/-- A request that can follow is queued. -/
lemma Inv.enqueue (h : Inv c t) (hr : CanFollow c t r) (hcre : r.request.status ≠ .created) :
    Inv c { t with requestQueue := t.requestQueue ++ [r] } := by
  have hrequests : { t with requestQueue := t.requestQueue ++ [r] }.requests =
      t.requests ++ [r] := by
    simp [requests]
  -- what holds of each request is to be shown for the new one
  have hforall : ∀ {p : UpdateTxnOperationState ι τ → Prop}, (∀ x ∈ t.requests, p x) → p r →
      ∀ x ∈ { t with requestQueue := t.requestQueue ++ [r] }.requests, p x := by
    intro p hp hpr x hx
    rw [hrequests] at hx
    rcases mem_append.1 hx with hx | hx
    · exact hp x hx
    · rwa [mem_singleton.1 hx]
  refine ⟨h.status, hforall h.ids hr.id, hforall h.kinds hr.kind, ?_, ?_, ?_, ?_,
    h.confirmed, h.count⟩
  · intro x hx
    rcases mem_append.1 hx with hx | hx
    · exact h.noCreated x hx
    · rwa [mem_singleton.1 hx]
  · rw [hrequests, pairwise_append]
    refine ⟨h.order, pairwise_singleton _ _, fun x hx y hy hcom habt => ?_⟩
    rw [mem_singleton.1 hy] at habt
    exact (hr.aborted habt).2 x hx hcom
  · intro hs
    refine hforall (h.decided hs) fun habt => ?_
    cases (hr.aborted habt).1.symm.trans hs
  · exact hforall h.applied hr.applied

/-- The records of requests that are handled while nothing is replicating. -/
structure CanStart (c : List (ι × τ)) (t : TransactionState ι τ) (r : UpdateTxnOperationState ι τ) :
    Prop where
  id : r.request.transactionId = t.id
  kind : r.request.status ≠ .appliedInOneOfInvolvedTablets
  created : r.request.status = .created → t.status = .pending
  aborted : r.request.status = .aborted → t.status = .pending
  committed : r.request.status = .committed → ∀ x ∈ t.requestQueue, x.request.status ≠ .aborted
  applied : r.request.status = .appliedInAllInvolvedTablets →
    t.status = .committed ∧ ∀ x ∈ t.involvedTablets, (t.id, x.1) ∈ c

/-- A request starts to be replicated while others may still be queued. -/
lemma Inv.replicate (h : Inv c t) (hnone : t.replicating = none) (hr : CanStart c t r) :
    Inv c { t with replicating := some r } := by
  have hque : t.requests = t.requestQueue := by simp [requests, hnone]
  have hforall : ∀ {p : UpdateTxnOperationState ι τ → Prop}, (∀ x ∈ t.requests, p x) → p r →
      ∀ x ∈ { t with replicating := some r }.requests, p x := by
    intro p hp hpr x hx
    rcases mem_cons.1 hx with rfl | hx
    · exact hpr
    · exact hp x (by rwa [hque])
  refine ⟨h.status, hforall h.ids hr.id, hforall h.kinds hr.kind, h.noCreated, ?_, ?_, ?_,
    h.confirmed, h.count⟩
  · refine pairwise_cons.2 ⟨fun x hx hs => hr.committed hs x hx, ?_⟩
    have horder := h.order
    rwa [hque] at horder
  · intro hs
    refine hforall (h.decided hs) fun habt => ?_
    cases (hr.aborted habt).symm.trans hs
  · exact hforall h.applied hr.applied

/-- Requests are dropped. -/
lemma Inv.clear (h : Inv c t) (queue : List (UpdateTxnOperationState ι τ))
    (hque : queue.Sublist t.requestQueue) :
    Inv c { t with replicating := none, requestQueue := queue } := by
  have hsub :
      { t with replicating := none, requestQueue := queue }.requests.Sublist t.requests := by
    exact hque.trans (sublist_append_right _ _)
  have hmem := fun r hr => hsub.subset (a := r) hr
  exact ⟨h.status, fun r hr => h.ids r (hmem r hr), fun r hr => h.kinds r (hmem r hr),
    fun r hr => h.noCreated r (hque.subset hr), h.order.sublist hsub,
    fun hs r hr => h.decided hs r (hmem r hr), fun r hr => h.applied r (hmem r hr), h.confirmed,
    h.count⟩

/-! ## Submitting -/

/-- The request that `submitUpdateStatus` makes. -/
def newRequest (t : TransactionState ι τ) (status : TransactionStatus)
    (acts : PostponedLeaderActions ι τ) : UpdateTxnOperationState ι τ :=
  ⟨acts.nextNumber, { transactionId := t.id, status }⟩

/-- A pending transaction can be aborted. -/
lemma canStart_aborted (acts : PostponedLeaderActions ι τ) (hstat : t.status = .pending) :
    CanStart c t (t.newRequest .aborted acts) :=
  ⟨rfl, by simp [newRequest], fun _ => hstat, fun _ =>
    hstat, by simp [newRequest], by simp [newRequest]⟩

/-- A new request waits in the queue while another one is replicating, and else is submitted. -/
lemma submitUpdateStatus_cases (t : TransactionState ι τ) (status : TransactionStatus)
    (acts : PostponedLeaderActions ι τ) :
    (t.replicating ≠ none ∧ t.submitUpdateStatus status acts =
      ({ t with requestQueue := t.requestQueue ++ [t.newRequest status acts] },
        { acts with nextNumber := acts.nextNumber + 1 })) ∨
    (t.replicating = none ∧ acts.leader = true ∧ t.submitUpdateStatus status acts =
      ({ t with replicating := some (t.newRequest status acts) },
        { acts with
          nextNumber := acts.nextNumber + 1
          updates := acts.updates ++ [t.newRequest status acts] })) ∨
    (t.replicating = none ∧ acts.leader = false ∧ t.submitUpdateStatus status acts =
      (t, { acts with nextNumber := acts.nextNumber + 1 })) := by
  have hlead : { acts with nextNumber := acts.nextNumber + 1 }.leader = acts.leader := rfl
  cases hrepl : t.replicating with
  | some r =>
    refine .inl ⟨Option.some_ne_none r, ?_⟩
    simp [submitUpdateStatus, hrepl, newRequest]
  | none =>
    cases hl : acts.leader with
    | true =>
      refine .inr (.inl ⟨rfl, rfl, ?_⟩)
      simp [submitUpdateStatus, hrepl, newRequest, hlead, hl]
    | false =>
      refine .inr (.inr ⟨rfl, rfl, ?_⟩)
      simp [submitUpdateStatus, hrepl, hlead, hl]

/-- One number is new. -/
lemma fresh_succ (next k : ℕ) : fresh next (next + 1) k = if next = k then 1 else 0 := by
  unfold fresh
  congr 1
  simp only [eq_iff_iff]
  omega

/-- A new request has the next number. -/
lemma numbered_newRequest (t : TransactionState ι τ) (status : TransactionStatus)
    (acts : PostponedLeaderActions ι τ) (k : ℕ) :
    numbered [t.newRequest status acts] k = fresh acts.nextNumber (acts.nextNumber + 1) k := by
  rw [numbered_singleton, fresh_succ]
  rfl

variable (acts) in
/-- A request that can follow is submitted, or queued. -/
lemma Inv.submitUpdateStatus (h : Inv c t) (hidle : Idle t) {status : TransactionStatus}
    (hstat : Allowed t.status status) (hcre : status ≠ .created)
    (hcom : status ≠ .committed) (hr : CanFollow c t (t.newRequest status acts)) :
    Kept c t acts (t.submitUpdateStatus status acts) := by
  rcases submitUpdateStatus_cases t status acts with ⟨hrepl, heq⟩ | ⟨hrepl, hlead, heq⟩
    | ⟨hrepl, -, heq⟩
  · rw [heq]
    refine ⟨[], ⟨rfl, le_succ _, (append_nil _).symm, fun k => ?_, .inl rfl⟩,
      ⟨rfl, rfl, rfl, rfl⟩, fun r hr => ⟨hr, rfl⟩, h.enqueue hr hcre,
      fun hnone => absurd hnone hrepl, rfl⟩
    rw [numbered_append, numbered_newRequest]
    exact le_rfl
  · rw [heq]
    refine ⟨[t.newRequest status acts], ⟨rfl, le_succ _, rfl, fun k =>
      ?_, .inr ⟨_, rfl, rfl, hstat, hlead⟩⟩,
      ⟨rfl, rfl, rfl, rfl⟩, by simp [hrepl], ?_, fun hnone => (nomatch hnone), rfl⟩
    · rw [numbered_newRequest]
    · exact h.replicate hrepl ⟨hr.id, hr.kind, fun hc => absurd hc hcre,
        fun ha => (hr.aborted ha).1, fun hc => absurd hc hcom, hr.applied⟩
  · rw [heq]
    refine ⟨[], ⟨rfl, le_succ _, (append_nil _).symm, fun k => ?_, .inl rfl⟩, .refl t,
      by simp [hrepl], h, hidle, rfl⟩
    simp [numbered]

/-! ## Calls that keep what is replicating -/

/-- A call that does nothing keeps the invariant. -/
lemma Keeps.refl (h : Inv c t) (hidle : Idle t) : Keeps c t t acts acts [] :=
  ⟨.refl t acts, .refl t, fun _ hr => ⟨hr, rfl⟩, h, hidle, rfl⟩

/-- New numbers of two calls, one after the other. -/
lemma fresh_add {next next' next'' : ℕ} (h : next ≤ next') (h' : next' ≤ next'') (k : ℕ) :
    fresh next next' k + fresh next' next'' k = fresh next next'' k := by
  unfold fresh
  split_ifs <;> omega

/-- A transaction before and after calls that have submitted `new` for it, in which the next number
went from `next` to `next'`. -/
structure Moves (c : List (ι × τ)) (leader : Bool) (t t' : TransactionState ι τ) (next next' : ℕ)
    (new : List (UpdateTxnOperationState ι τ)) : Prop where
  core : SameCore t t'
  kept : ∀ r, t.replicating = some r → t'.replicating = some r ∧ new = []
  inv : Inv c t'
  idle : Idle t'
  budget : ∀ k, numbered t'.requestQueue k + numbered new k ≤
    numbered t.requestQueue k + fresh next next' k
  submits : new = [] ∨ ∃ r, new = [r] ∧ t'.replicating = some r ∧
    Allowed t'.status r.request.status ∧ leader = true

/-- A call that keeps the invariant moves the transaction on. -/
lemma Keeps.moves {new : List (UpdateTxnOperationState ι τ)} (h : Keeps c t t' acts acts' new) :
    Moves c acts.leader t t' acts.nextNumber acts'.nextNumber new :=
  ⟨h.core, h.kept, h.inv, h.idle, h.outcome.budget, h.outcome.submits⟩

/-- A transaction that does not move. -/
lemma Moves.refl (h : Inv c t) (hidle : Idle t) (leader : Bool)
    (next next' : ℕ) : Moves c leader t t next next' [] :=
  ⟨.refl t, fun _ hr => ⟨hr, rfl⟩, h, hidle, fun _ => by simp [numbered], .inl rfl⟩

variable {new new' : List (UpdateTxnOperationState ι τ)}

/-- Two moves, one after the other. -/
lemma Moves.trans {leader : Bool} {next next' next'' : ℕ} (h : Moves c leader t t' next next' new)
    (h' : Moves c leader t' t'' next' next'' new') (hn : next ≤ next') (hn' : next' ≤ next'') :
    Moves c leader t t'' next next'' (new ++ new') := by
  refine ⟨h.core.trans h'.core, ?_, h'.inv, h'.idle, fun k => ?_, ?_⟩
  · intro r hr
    obtain ⟨hr', rfl⟩ := h.kept r hr
    obtain ⟨hr'', rfl⟩ := h'.kept r hr'
    exact ⟨hr'', rfl⟩
  · have hb := h.budget k
    have hb' := h'.budget k
    have hfresh := fresh_add hn hn' k
    rw [numbered_append]
    omega
  · -- what the first calls have submitted the others leave alone
    rcases h.submits with rfl | ⟨r, rfl, hr, hall, hlead⟩
    · exact h'.submits
    · obtain ⟨hr', rfl⟩ := h'.kept r hr
      exact .inr ⟨r, rfl, hr', by rwa [h'.core.status], hlead⟩

/-- One call after another. -/
lemma Keeps.trans {acts'' : PostponedLeaderActions ι τ} (h : Keeps c t t' acts acts' new)
    (h' : Keeps c t' t'' acts' acts'' new') : Keeps c t t'' acts acts'' (new ++ new') := by
  have hmoves' := h'.moves
  rw [PostponedLeaderActions.leader, h.outcome.leaderTerm] at hmoves'
  have hmoves := h.moves.trans hmoves' h.outcome.next h'.outcome.next
  refine ⟨⟨h'.outcome.leaderTerm.trans h.outcome.leaderTerm, h.outcome.next.trans h'.outcome.next,
    ?_, hmoves.budget, hmoves.submits⟩, hmoves.core, hmoves.kept, hmoves.inv, hmoves.idle,
    h'.answers.trans h.answers⟩
  rw [h'.outcome.updates, h.outcome.updates, append_assoc]

/-- Only a pending transaction that is not to be committed is aborted. -/
lemma abort_cases (t : TransactionState ι τ) (acts : PostponedLeaderActions ι τ) :
    t.abort acts = (t, acts) ∨ (t.status = .pending ∧ t.shouldBeCommitted = false ∧
        t.abort acts = t.submitUpdateStatus .aborted acts) := by
  unfold abort
  split_ifs with hcom habt hstat
  iterate 3 · exact .inl rfl
  · exact .inr ⟨not_not.1 hstat, by simpa using hcom, rfl⟩

/-- What `ShouldBeCommitted` has looked at. -/
lemma not_committed_of_shouldBeCommitted (h : t.shouldBeCommitted = false) (hidle : Idle t) :
    ∀ r ∈ t.requests, r.request.status ≠ .committed := by
  intro r hr hs
  cases hrepl : t.replicating with
  | none => simp [requests, hrepl, hidle hrepl] at hr
  | some r' =>
    simp only [shouldBeCommitted, shouldBeInStatus, hrepl, Bool.or_eq_false_iff,
      decide_eq_false_iff_not, any_eq_false, decide_eq_true_eq] at h
    obtain ⟨⟨-, hr', hque⟩, -⟩ := h
    simp only [requests, hrepl, Option.toList_some, singleton_append, mem_cons] at hr
    rcases hr with rfl | hr
    · exact hr' hs
    · exact hque r hr hs

variable (acts) in
/-- An abort keeps the invariant. -/
lemma Inv.abort (h : Inv c t) (hidle : Idle t) : Kept c t acts (t.abort acts) := by
  rcases abort_cases t acts with heq | ⟨hstat, hcom, heq⟩
  · rw [heq]
    exact ⟨[], .refl h hidle⟩
  rw [heq]
  have hfollow : CanFollow c t (t.newRequest .aborted acts) :=
    ⟨rfl, by simp [newRequest],
      fun _ => ⟨hstat, not_committed_of_shouldBeCommitted hcom hidle⟩,
      by simp [newRequest]⟩
  exact h.submitUpdateStatus acts hidle (by simp [hstat, Allowed]) (by simp) (by simp) hfollow

/-- A request is dropped, turned into an abort, or submitted. -/
lemma doHandle_cases (t : TransactionState ι τ) (r : UpdateTxnOperationState ι τ)
    (acts : PostponedLeaderActions ι τ) :
    t.doHandle timeout now r acts = (t, acts) ∨
    (r.request.status = .committed ∧ t.doHandle timeout now r acts = t.abort acts) ∨
    (t.doHandle timeout now r acts =
        ({ t with replicating := some r }, { acts with updates := acts.updates ++ [r] }) ∧
      (r.request.status = .committed ∨ r.request.status = .pending → t.status = .pending)) := by
  unfold doHandle
  cases hs : r.request.status with
  | committed =>
    by_cases hexp : t.expiredAt timeout now = true
    · exact .inr (.inl ⟨rfl, by simp [handleCommit, hexp]⟩)
    · by_cases hp : t.status = .pending
      · exact .inr (.inr ⟨by simp [handleCommit, hexp, hp], fun _ => hp⟩)
      · exact .inl (by simp [handleCommit, hexp, hp])
  | pending =>
    by_cases hp : t.status = .pending
    · exact .inr (.inr ⟨by simp [hp], fun _ => hp⟩)
    · exact .inl (by simp [hp])
  | created | aborted | appliedInOneOfInvolvedTablets | appliedInAllInvolvedTablets =>
    exact .inr (.inr ⟨rfl, by simp⟩)

/-- Requests were `taken`, and `new` is what is replicating now. -/
structure Handles (c : List (ι × τ)) (t t' : TransactionState ι τ)
    (acts acts' : PostponedLeaderActions ι τ) (taken new : List (UpdateTxnOperationState ι τ)) :
    Prop where
  outcome : Outcome { t with requestQueue := taken } t' acts acts' new
  replicating : new = [] → t'.replicating = none
  core : SameCore t t'
  inv : Inv c t'
  answers : acts'.answers = acts.answers

variable (acts timeout now) in
/-- `doHandle` when nothing is replicating; `r` may have been taken from the queue. -/
lemma Inv.doHandle (h : Inv c t) (hnone : t.replicating = none) (hlead : acts.leader = true)
    (hr : CanStart c t r) :
    (t.doHandle timeout now r acts).1.requestQueue = t.requestQueue ∧
    ∃ new, Handles c t (t.doHandle timeout now r acts).1 acts (t.doHandle timeout now r acts).2
      (r :: t.requestQueue) new := by
  have hrejected : Handles c t t acts acts (r :: t.requestQueue) [] := by
    refine ⟨⟨rfl, le_rfl, (append_nil _).symm, fun k => ?_, .inl rfl⟩, fun _ =>
      hnone, .refl t, h, rfl⟩
    rw [numbered_cons]
    simp [numbered]
    omega
  rcases doHandle_cases t r acts with heq | ⟨-, heq⟩ | ⟨heq, hpend⟩
  · rw [heq]
    exact ⟨rfl, [], hrejected⟩
  · -- an expired transaction is aborted instead
    rw [heq]
    rcases abort_cases t acts with heq | ⟨hstat, -, heq⟩
    · rw [heq]
      exact ⟨rfl, [], hrejected⟩
    rw [heq]
    rcases submitUpdateStatus_cases t .aborted acts with ⟨hrepl, -⟩ | ⟨-, -, heq⟩ | ⟨-, hl, -⟩
    · exact absurd hnone hrepl
    · rw [heq]
      have hall : Allowed t.status (t.newRequest .aborted acts).request.status := by
        rw [hstat]
        simp [Allowed, newRequest]
      refine ⟨rfl, [t.newRequest .aborted acts], ⟨rfl, le_succ _, rfl, fun k => ?_,
        .inr ⟨_, rfl, rfl, hall, hlead⟩⟩, fun hnil => (nomatch hnil), ⟨rfl, rfl, rfl, rfl⟩, ?_, rfl⟩
      · rw [numbered_newRequest, numbered_cons]
        dsimp only
        omega
      · exact h.replicate hnone (canStart_aborted acts hstat)
    · rw [hlead] at hl
      cases hl
  · rw [heq]
    have hall : Allowed t.status r.request.status := by
      cases hs : r.request.status with
      | created => simp [hr.created hs, Allowed]
      | pending => simp [hpend (.inr hs), Allowed]
      | committed => simp [hpend (.inl hs), Allowed]
      | aborted => simp [hr.aborted hs, Allowed]
      | appliedInOneOfInvolvedTablets => exact absurd hs hr.kind
      | appliedInAllInvolvedTablets => simp [(hr.applied hs).1, Allowed]
    refine ⟨rfl, [r], ⟨rfl, le_rfl, rfl, fun k => ?_, .inr ⟨r, rfl, rfl, hall, hlead⟩⟩,
      fun hnil => (nomatch hnil), ⟨rfl, rfl, rfl, rfl⟩, h.replicate hnone hr, rfl⟩
    rw [numbered_singleton, numbered_cons]
    simp only
    omega

variable {queue : List (UpdateTxnOperationState ι τ)} {tablet : τ}

/-- The first of the queued requests can be handled when nothing is replicating. -/
lemma Inv.canStart (h : Inv c { t with replicating := none, requestQueue := r :: queue }) :
    CanStart c { t with replicating := none, requestQueue := queue } r := by
  have hmem : r ∈ { t with replicating := none, requestQueue := r :: queue }.requests :=
    mem_cons_self
  refine ⟨h.ids r hmem, h.kinds r hmem, fun hs => ?_, fun hs => ?_, fun hs x hx =>
    ?_, h.applied r hmem⟩
  · exact absurd hs (h.noCreated r mem_cons_self)
  · exact h.status.resolve_right fun hc => h.decided hc r hmem hs
  · exact (pairwise_cons.1 h.order).1 x hx hs

/-- The queue waits while a request is replicating. -/
lemma processQueue_of_replicating (h : t.replicating = some r) :
    processQueue timeout now t.requestQueue t acts = (t, acts) := by
  have hsome : t.replicating.isSome = true := by rw [h, Option.isSome_some]
  cases hq : t.requestQueue with
  | nil => simp only [processQueue, ← hq]
  | cons r' queue => simp only [processQueue, hsome, if_true, ← hq]

variable (acts timeout now) in
/-- `processQueue` takes requests from the queue until one is submitted. -/
lemma Inv.processQueue (h : Inv c { t with replicating := none, requestQueue := queue })
    (hnone : t.replicating = none) (hlead : acts.leader = true) :
    Idle (processQueue timeout now queue t acts).1 ∧
    ∃ new, Handles c t (processQueue timeout now queue t acts).1 acts
      (processQueue timeout now queue t acts).2 queue new := by
  induction queue generalizing t acts with
  | nil =>
    refine ⟨fun _ => rfl, [], ⟨rfl, le_rfl, (append_nil _).symm, fun k => zero_le _, .inl rfl⟩,
      fun _ => hnone, ⟨rfl, rfl, rfl, rfl⟩, ?_, rfl⟩
    rwa [← hnone] at h
  | cons r queue ih =>
    have ht : { t with requestQueue := queue } =
        { t with replicating := none, requestQueue := queue } := by rw [hnone]
    have hunfold : processQueue timeout now (r :: queue) t acts =
        processQueue timeout now queue
          ({ t with requestQueue := queue }.doHandle timeout now r acts).1
          ({ t with requestQueue := queue }.doHandle timeout now r acts).2 := by
      simp [processQueue, hnone]
    rw [hunfold, ht]
    have hinv : Inv c { t with replicating := none, requestQueue := queue } :=
      h.clear queue (sublist_cons_self r queue)
    obtain ⟨hque, new, hd⟩ := hinv.doHandle acts timeout now rfl hlead h.canStart
    revert hque hd
    generalize ({ t with replicating := none, requestQueue := queue } :
      TransactionState ι τ).doHandle timeout now r acts = res
    obtain ⟨t₁, acts₁⟩ := res
    intro hque hd
    dsimp only at hque hd ⊢
    rcases hd.outcome.submits with rfl | ⟨r', rfl, hr', -⟩
    · -- the request was rejected, and the next one is looked at
      have hnone₁ := hd.replicating rfl
      have hinv₁ : Inv c { t₁ with replicating := none, requestQueue := queue } := by
        rw [← hnone₁, ← hque]
        exact hd.inv
      have hleads : acts₁.leader = acts.leader := by
        rw [PostponedLeaderActions.leader, hd.outcome.leaderTerm]
        rfl
      obtain ⟨hidle, new', hd'⟩ := ih acts₁ hinv₁ hnone₁ (hleads.trans hlead)
      refine ⟨hidle, new', ⟨hd'.outcome.leaderTerm.trans hd.outcome.leaderTerm,
        hd.outcome.next.trans hd'.outcome.next, ?_, fun k => ?_, ?_⟩, hd'.replicating, ?_, hd'.inv,
        hd'.answers.trans hd.answers⟩
      · rw [hd'.outcome.updates, hd.outcome.updates, append_nil]
      · have hb := hd'.outcome.budget k
        have hfresh := fresh_add hd.outcome.next hd'.outcome.next k
        rw [numbered_cons]
        dsimp only at hb
        omega
      · rw [← hleads]
        exact hd'.outcome.submits
      · exact { hd.core.trans hd'.core with }
    · -- the request was submitted, and the others wait
      have hdone : processQueue timeout now queue t₁ acts₁ = (t₁, acts₁) :=
        hque ▸ processQueue_of_replicating hr'
      rw [hdone]
      refine ⟨fun hn => ?_, [r'], { hd.outcome with }, hd.replicating, { hd.core with },
        hd.inv, hd.answers⟩
      cases hr'.symm.trans hn

/-! ## Calls from clients -/

/-- Marks a tablet that has confirmed. -/
def mark [DecidableEq τ] (tablet : τ) (x : τ × Bool) : τ × Bool :=
  if x.1 = tablet then (x.1, true) else x

lemma mark_fst [DecidableEq τ] (tablet : τ) (x : τ × Bool) : (mark tablet x).1 = x.1 := by
  unfold mark
  split_ifs <;> rfl

/-- A tablet is marked if it was marked before or is the one that applied. -/
lemma mark_snd [DecidableEq τ] {x : τ × Bool} (h : (mark tablet x).2 = true) :
    x.1 = tablet ∨ x.2 = true := by
  unfold mark at h
  split_ifs at h with hx
  · exact .inl hx
  · exact .inr h

/-- A mark does not add tablets that have still to apply. -/
lemma countP_map_mark_le [DecidableEq τ] (tablet : τ) (l : List (τ × Bool)) :
    (l.map (mark tablet)).countP (fun x => !x.2) ≤ l.countP (fun x => !x.2) := by
  rw [countP_map]
  refine countP_mono_left fun x _ hx => ?_
  simp only [Function.comp, mark] at hx
  split_ifs at hx
  · cases hx
  · exact hx

/-- A new mark leaves fewer tablets that have still to apply. -/
lemma countP_map_mark_lt [DecidableEq τ] {l : List (τ × Bool)} (h : (tablet, false) ∈ l) :
    (l.map (mark tablet)).countP (fun x => !x.2) < l.countP (fun x => !x.2) := by
  induction l with
  | nil => cases h
  | cons x l ih =>
    rw [map_cons, countP_cons, countP_cons]
    rcases mem_cons.1 h with rfl | h
    · have hle := countP_map_mark_le tablet l
      simp only [mark, if_true, Bool.not_true, Bool.not_false, Bool.false_eq_true, if_false]
      omega
    · have hlt := ih h
      have hle : (if !(mark tablet x).2 then 1 else 0) ≤ if !x.2 then 1 else 0 := by
        by_cases hx : x.1 = tablet <;> simp [mark, hx]
      omega

/-- A tablet confirms. -/
lemma Inv.confirm [DecidableEq τ] (h : Inv c t) (hc : (t.id, tablet) ∈ c)
    (hmem : (tablet, false) ∈ t.involvedTablets) :
    Inv c { t with
      tabletsWithNotAppliedIntents := t.tabletsWithNotAppliedIntents - 1
      involvedTablets := t.involvedTablets.map (mark tablet) } := by
  refine { h with applied := fun r hr hs => ?_, confirmed := ?_, count := fun hs => ?_ }
  · refine ⟨(h.applied r hr hs).1, fun x hx => ?_⟩
    obtain ⟨y, hy, rfl⟩ := mem_map.1 hx
    rw [mark_fst]
    exact (h.applied r hr hs).2 y hy
  · intro x hx hx'
    obtain ⟨y, hy, rfl⟩ := mem_map.1 hx
    rw [mark_fst]
    rcases mark_snd hx' with rfl | hy'
    · exact hc
    · exact h.confirmed y hy hy'
  · have hcnt := h.count hs
    have hlt := countP_map_mark_lt hmem
    dsimp only
    omega

variable (acts) in
/-- A committed transaction that waits for no tablet is completed. -/
lemma Inv.submitApplied (h : Inv c t) (hidle : Idle t) (hstat : t.status = .committed)
    (hzero : t.tabletsWithNotAppliedIntents = 0) :
    Kept c t acts (t.submitUpdateStatus .appliedInAllInvolvedTablets acts) := by
  have hall : ∀ x ∈ t.involvedTablets, (t.id, x.1) ∈ c := by
    intro x hx
    refine h.confirmed x hx ?_
    have hcnt := h.count hstat
    rw [hzero, le_zero, countP_eq_zero] at hcnt
    simpa using hcnt x hx
  exact h.submitUpdateStatus acts hidle (by simp [hstat, Allowed]) (by simp) (by simp)
    ⟨rfl, by simp [newRequest], by simp [newRequest], fun _ => ⟨hstat, hall⟩⟩

variable (acts) in
/-- The news that tablets have applied keep the invariant. -/
lemma Inv.appliedInOneOfInvolvedTablets [DecidableEq τ] (h : Inv c t) (hidle : Idle t)
    {tablets : List τ} (hc : ∀ tablet ∈ tablets, (t.id, tablet) ∈ c) :
    Kept c t acts (t.appliedInOneOfInvolvedTablets tablets acts) := by
  have hrefl : Keeps c t t acts acts [] := .refl h hidle
  unfold TransactionState.appliedInOneOfInvolvedTablets
  split_ifs with hstat
  · exact ⟨[], hrefl⟩
  rw [not_not] at hstat
  match tablets with
  | [] | _ :: _ :: _ => exact ⟨[], hrefl⟩
  | [tablet] =>
    dsimp only
    by_cases hmem : (tablet, false) ∈ t.involvedTablets
    · rw [if_pos hmem]
      have hinv := h.confirm (hc tablet (mem_singleton_self _)) hmem
      have hkeeps : Keeps c t { t with
          tabletsWithNotAppliedIntents := t.tabletsWithNotAppliedIntents - 1
          involvedTablets := t.involvedTablets.map (mark tablet) } acts acts [] := by
        refine ⟨⟨rfl, le_rfl, (append_nil _).symm, fun k => le_add_right _ _, .inl rfl⟩,
          ⟨rfl, rfl, rfl, ?_⟩, fun _ hr => ⟨hr, rfl⟩, hinv, hidle, rfl⟩
        rw [map_map]
        exact map_congr_left fun x _ => mark_fst tablet x
      split_ifs with hzero
      · -- the last tablet has confirmed
        obtain ⟨new, hsubmit⟩ := hinv.submitApplied acts hidle hstat hzero
        exact ⟨new, hkeeps.trans hsubmit⟩
      · exact ⟨[], hkeeps⟩
    · rw [if_neg hmem]
      exact ⟨[], hrefl⟩

/-- The next number may have been lower before. -/
lemma Keeps.of_next_le {n : ℕ} (h : Keeps c t t' acts acts' new) (hn : n ≤ acts.nextNumber) :
    Keeps c t t' { acts with nextNumber := n } acts' new := by
  refine { h with outcome := { h.outcome with next := hn.trans h.outcome.next, budget := fun k =>
    ?_ } }
  have hb := h.outcome.budget k
  have hfresh := fresh_add hn h.outcome.next k
  dsimp only
  omega

variable (acts timeout now) in
/-- A request that is handled, or queued, is the last that was numbered. -/
lemma Inv.handle [DecidableEq τ] (h : Inv c t) (hidle : Idle t) (hlead : acts.leader = true)
    (hnext : acts.nextNumber = r.number + 1) (hid : r.request.transactionId = t.id)
    (hcre : r.request.status = .created → t.status = .pending ∧ t.replicating = none)
    (habt : r.request.status ≠ .aborted)
    (happl : r.request.status ≠ .appliedInAllInvolvedTablets)
    (hconf : r.request.status = .appliedInOneOfInvolvedTablets → ∀ tablet ∈ r.request.tablets,
      (t.id, tablet) ∈ c) :
    Kept c t { acts with nextNumber := r.number } (t.handle timeout now r acts) := by
  have hle : r.number ≤ acts.nextNumber := hnext ▸ le_succ _
  unfold TransactionState.handle
  by_cases hone : r.request.status = .appliedInOneOfInvolvedTablets
  · rw [if_pos hone]
    obtain ⟨new, hkeeps⟩ := h.appliedInOneOfInvolvedTablets acts hidle (hconf hone)
    exact ⟨new, hkeeps.of_next_le hle⟩
  rw [if_neg hone]
  have hnum : ∀ k, numbered [r] k = fresh r.number acts.nextNumber k := fun k => by
    rw [hnext, fresh_succ, numbered_singleton]
  by_cases hsome : t.replicating.isSome = true
  · rw [if_pos hsome]
    -- another request is being replicated: it has to wait
    refine ⟨[], ⟨rfl, hle, (append_nil _).symm, fun k => ?_, .inl rfl⟩, ⟨rfl, rfl, rfl, rfl⟩,
      fun _ hr => ⟨hr, rfl⟩, ?_, fun hnone => ?_, rfl⟩
    · rw [numbered_append, hnum]
      exact le_rfl
    · refine h.enqueue ⟨hid, hone, fun ha => absurd ha habt, fun ha => absurd ha happl⟩ ?_
      intro hs
      simp [(hcre hs).2] at hsome
    · exact absurd hnone (Option.isSome_iff_ne_none.1 hsome)
  · rw [if_neg hsome]
    -- nothing is, so that the queue is empty too
    have hrepl := Option.not_isSome_iff_eq_none.1 hsome
    have hque := hidle hrepl
    have hstart : CanStart c t r := by
      refine ⟨hid, hone, fun hs => (hcre hs).1, fun ha => absurd ha habt, fun _ x hx => ?_,
        fun ha => absurd ha happl⟩
      simp [hque] at hx
    obtain ⟨hque', new, hd⟩ := h.doHandle acts timeout now hrepl hlead hstart
    refine ⟨new, { hd.outcome with next := hle.trans hd.outcome.next, budget := fun k =>
      ?_ }, hd.core,
      by simp [hrepl], hd.inv, fun _ => hque'.trans hque, hd.answers⟩
    have hb := hd.outcome.budget k
    have hfresh := fresh_add hle hd.outcome.next k
    rw [hque, hnum] at hb
    simp only [numbered] at hb ⊢
    omega

variable (acts) in
/-- A poll keeps the invariant. -/
lemma Inv.poll (h : Inv c t) (hidle : Idle t) : Kept c t acts (t.poll acts) := by
  have hrefl : Keeps c t t acts acts [] := .refl h hidle
  unfold TransactionState.poll
  split_ifs with hstat hzero
  · exact ⟨[], hrefl⟩
  · exact h.submitApplied acts hidle (not_not.1 hstat) hzero.1
  · exact ⟨[], hrefl⟩

variable (acts) in
/-- A request to abort, with the answer if there is one at once. -/
lemma Inv.abortRequested (h : Inv c t) (hidle : Idle t) :
    Kept c t acts (t.abortRequested acts).2 ∧ ((t.abortRequested acts).1 = none ∨
        t.status = .committed ∧ (t.abortRequested acts).1 = some ⟨.committed, t.commitTime⟩ ∨
        t.status = .pending ∧ (t.abortRequested acts).1 = some ⟨.committed, kMax⟩) := by
  have hrefl : Keeps c t t acts acts [] := .refl h hidle
  unfold TransactionState.abortRequested
  split_ifs with hcom hshould habt
  · refine ⟨⟨[], hrefl⟩, .inr (.inl ⟨hcom.resolve_right fun hs => ?_, rfl⟩)⟩
    rcases h.status with hs' | hs' <;> rw [hs'] at hs <;> cases hs
  · exact ⟨⟨[], hrefl⟩, .inr (.inr ⟨h.status.resolve_right fun hs => hcom (.inl hs), rfl⟩)⟩
  · rcases h.status with hs | hs <;> rw [hs] at habt <;> cases habt
  have hinv : Inv c { t with abortWaiters := t.abortWaiters + 1 } := { h with }
  have hwait : Keeps c t { t with abortWaiters := t.abortWaiters + 1 } acts acts [] :=
    ⟨⟨rfl, le_rfl, (append_nil _).symm, fun k => le_add_right _ _, .inl rfl⟩,
      ⟨rfl, rfl, rfl, rfl⟩, fun _ hr => ⟨hr, rfl⟩, hinv, hidle, rfl⟩
  obtain ⟨new, hkeeps⟩ := hinv.abort acts hidle
  exact ⟨⟨_, hwait.trans hkeeps⟩, .inl rfl⟩

/-! ## Replicated and failed records -/

variable (acts) in
/-- `ClearRequests` leaves a transaction without requests. -/
lemma Inv.clearRequests (h : Inv c t) :
    SameCore t (t.clearRequests acts).1 ∧ Inv c (t.clearRequests acts).1 ∧
      Idle (t.clearRequests acts).1 := by
  have hinv := h.clear [] (nil_sublist _)
  exact ⟨⟨rfl, rfl, rfl, rfl⟩, { hinv with }, fun _ => rfl⟩

/-- Requests that are cleared are answered and not submitted. -/
lemma clearRequests_outcome (t : TransactionState ι τ) (acts : PostponedLeaderActions ι τ) :
    Outcome t (t.clearRequests acts).1 acts (t.clearRequests acts).2 [] :=
  ⟨rfl, le_rfl, (append_nil _).symm, fun _ => zero_le _, .inl rfl⟩

/-- Cleared requests are answered without a status. -/
lemma mem_answers_clearRequests {a : StatusAnswer ι}
    (ha : a ∈ (t.clearRequests acts).2.answers) : a ∈ acts.answers ∨ a = ⟨t.id, none⟩ :=
  (mem_append.1 ha).imp_right eq_of_mem_replicate

/-- The transaction after a record was processed. -/
structure Processed [DecidableEq τ] (c : List (ι × τ)) (t t' : TransactionState ι τ)
    (acts acts' : PostponedLeaderActions ι τ) (record : TransactionStatePB ι τ)
    (hybridTime : HybridTime) (new : List (UpdateTxnOperationState ι τ)) : Prop where
  outcome : Outcome t t' acts acts' new
  id : t'.id = t.id
  decided :
    (record.status = .aborted ∧ t'.status = .aborted) ∨
    (record.status = .appliedInAllInvolvedTablets ∧ t'.status = .appliedInAllInvolvedTablets) ∨
    (record.status = .committed ∧ t'.status = .committed ∧ t'.commitTime = hybridTime ∧
      t'.involvedTablets.map Prod.fst = record.tablets.dedup ∧ Inv c t' ∧ Idle t') ∨
    ((record.status = .created ∨ record.status = .pending) ∧ SameCore t t' ∧ Inv c t' ∧ Idle t')
  answers : ∀ a ∈ acts'.answers, a ∈ acts.answers ∨ a = ⟨t.id, none⟩ ∨
    (record.status = .aborted ∧ a = ⟨t.id, some .aborted⟩) ∨
    (record.status = .committed ∧ a = ⟨t.id, some ⟨.committed, hybridTime⟩⟩)

/-- The transaction with the result `res` of processing a record. -/
def ProcessedTo [DecidableEq τ] (c : List (ι × τ)) (t : TransactionState ι τ)
    (acts : PostponedLeaderActions ι τ) (record : TransactionStatePB ι τ) (hybridTime : HybridTime)
    (res : TransactionState ι τ × PostponedLeaderActions ι τ) : Prop :=
  ∃ new, Processed c t res.1 acts res.2 record hybridTime new

/-- The end of `ProcessReplicated`, for a transaction that is not completed. -/
def afterReplicated (timeout : ℤ) (now : HybridTime) (t : TransactionState ι τ)
    (acts : PostponedLeaderActions ι τ) : TransactionState ι τ × PostponedLeaderActions ι τ :=
  if acts.leader then processQueue timeout now t.requestQueue t acts else t.clearRequests acts

variable (acts timeout now) in
/-- What follows a replicated record: the requests are cleared, or the next one is handled. -/
lemma Inv.afterReplicated (h : Inv c t) (hnone : t.replicating = none) :
    ∃ new, Outcome t (t.afterReplicated timeout now acts).1 acts
      (t.afterReplicated timeout now acts).2 new ∧
      SameCore t (t.afterReplicated timeout now acts).1 ∧
      Inv c (t.afterReplicated timeout now acts).1 ∧
      Idle (t.afterReplicated timeout now acts).1 ∧
      ∀ a ∈ (t.afterReplicated timeout now acts).2.answers, a ∈ acts.answers ∨
        a = ⟨t.id, none⟩ := by
  unfold TransactionState.afterReplicated
  split_ifs with hlead
  · have hinv : Inv c { t with replicating := none, requestQueue := t.requestQueue } := by
      rw [← hnone]
      exact h
    obtain ⟨hidle, new, hd⟩ := hinv.processQueue acts timeout now hnone hlead
    exact ⟨new, hd.outcome, hd.core, hd.inv, hidle, fun a ha => .inl (hd.answers ▸ ha)⟩
  · obtain ⟨hcore, hinv, hidle⟩ := h.clearRequests acts
    exact ⟨[], clearRequests_outcome t acts, hcore, hinv, hidle, fun a ha =>
      mem_answers_clearRequests ha⟩

section Replicated

variable [DecidableEq τ] {record : TransactionStatePB ι τ} {ht : HybridTime}

section

variable (hd : { t with replicating := none }.doProcessReplicated timeout record ht acts =
  (t', acts'))

include hd

/-- A record completes the transaction. -/
lemma processReplicated_of_completed (hs : t'.completed = true) :
    t.processReplicated timeout now record ht acts = t'.clearRequests acts' := by
  unfold processReplicated
  simp only [hd, hs, Bool.or_true, if_true]

/-- A transaction that is not completed goes on with its queue. -/
lemma processReplicated_of_not_completed (hs : t'.completed = false) :
    t.processReplicated timeout now record ht acts = t'.afterReplicated timeout now acts' := by
  unfold processReplicated afterReplicated
  simp only [hd, hs, Bool.or_false, Bool.not_eq_true']
  split_ifs with h₁ h₂ h₂
  · rw [h₁] at h₂
    cases h₂
  · rfl
  · rfl
  · simp_all

end

/-- An aborted transaction is completed. -/
lemma processReplicated_aborted (hrec : record.status = .aborted) :
    ProcessedTo c t acts record ht (t.processReplicated timeout now record ht acts) := by
  have hd : { t with replicating := none }.doProcessReplicated timeout record ht acts =
      { t with replicating := none }.abortedReplicationFinished acts := by
    simp only [doProcessReplicated, hrec]
  rw [processReplicated_of_completed hd rfl]
  refine ⟨[], ⟨rfl, le_rfl, (append_nil _).symm, fun _ => zero_le _, .inl rfl⟩, rfl,
    .inl ⟨hrec, rfl⟩, fun a ha => ?_⟩
  rcases mem_answers_clearRequests ha with ha | ha
  · rcases mem_append.1 ha with ha | ha
    · exact .inl ha
    · exact .inr (.inr (.inl ⟨hrec, eq_of_mem_replicate ha⟩))
  · exact .inr (.inl ha)

/-- So is one that is applied everywhere. -/
lemma processReplicated_appliedInAll (hrec : record.status = .appliedInAllInvolvedTablets) :
    ProcessedTo c t acts record ht (t.processReplicated timeout now record ht acts) := by
  have hd : { t with replicating := none }.doProcessReplicated timeout record ht acts =
      ({ t with
        replicating := none
        lastTouch := ht
        status := .appliedInAllInvolvedTablets }, acts) := by
    simp only [doProcessReplicated, hrec]
  rw [processReplicated_of_completed hd rfl]
  refine ⟨[], ⟨rfl, le_rfl, (append_nil _).symm, fun _ => zero_le _, .inl rfl⟩, rfl,
    .inr (.inl ⟨hrec, rfl⟩), fun a ha => ?_⟩
  rcases mem_answers_clearRequests ha with ha | ha
  · exact .inl ha
  · exact .inr (.inl ha)

/-- The transaction right after a commit, while requests are still queued. -/
def committedState (t : TransactionState ι τ) (tablets : List τ) (ht : HybridTime) :
    TransactionState ι τ :=
  { t with
    replicating := none
    lastTouch := ht
    commitTime := ht
    involvedTablets := tablets.dedup.map fun tablet => (tablet, false)
    status := .committed
    tabletsWithNotAppliedIntents := (tablets.dedup.map fun tablet => (tablet, false)).length
    abortWaiters := 0 }

/-- A transaction that is now committed has no abort in its queue. -/
lemma Inv.committedState (h : Inv c t) (hstat : t.status = .pending) (tablets : List τ)
    (hque : ∀ r ∈ t.requestQueue, r.request.status ≠ .aborted) :
    Inv c (t.committedState tablets ht) := by
  have hclear := h.clear t.requestQueue (List.Sublist.refl _)
  refine ⟨.inr rfl, hclear.ids, hclear.kinds, hclear.noCreated, hclear.order, fun _ => hque,
    fun r hr hs => ?_, ?_, fun _ => countP_le_length⟩
  · cases hstat.symm.trans (hclear.applied r hr hs).1
  · intro x hx hx'
    obtain ⟨tablet, -, rfl⟩ := mem_map.1 hx
    cases hx'

/-- A replicated commit. -/
lemma Inv.processReplicated_committed (h : Inv c t) (hrec : record.status = .committed)
    (hstat : t.status = .pending)
    (hlead : acts.leader = true → ∃ r, t.replicating = some r ∧ r.request = record) :
    ProcessedTo c t acts record ht (t.processReplicated timeout now record ht acts) := by
  have hd : { t with replicating := none }.doProcessReplicated timeout record ht acts =
      (t.committedState record.tablets ht, { acts with
        answers := acts.answers ++
          List.replicate t.abortWaiters ⟨t.id, some ⟨.committed, ht⟩⟩ }) := by
    simp only [doProcessReplicated, hrec, hstat]
    rfl
  rw [processReplicated_of_not_completed hd rfl]
  set acts₁ : PostponedLeaderActions ι τ := { acts with
    answers := acts.answers ++ List.replicate t.abortWaiters ⟨t.id, some ⟨.committed, ht⟩⟩ }
  have htabs : (t.committedState record.tablets ht).involvedTablets.map Prod.fst =
      record.tablets.dedup := by
    simp [TransactionState.committedState, Function.comp_def]
  -- requests stay queued on a leader only, and there they have waited behind the commit
  have hinv : ∃ t₁, Inv c t₁ ∧ t₁.replicating = none ∧
      SameCore (t.committedState record.tablets ht) t₁ ∧
      (t.committedState record.tablets ht).afterReplicated timeout now acts₁ =
        t₁.afterReplicated timeout now acts₁ ∧
      ∀ k, numbered t₁.requestQueue k ≤ numbered t.requestQueue k := by
    cases hl : acts.leader with
    | true =>
      obtain ⟨r, hr, hrec'⟩ := hlead hl
      refine ⟨_, h.committedState hstat record.tablets fun x hx =>
        ?_, rfl, .refl _, rfl, fun _ => le_rfl⟩
      have horder := h.order
      rw [requests, hr] at horder
      exact (pairwise_cons.1 horder).1 x hx (by rw [hrec', hrec])
    | false =>
      have hclear := h.clear [] (nil_sublist _)
      have hl₁ : acts₁.leader = false := hl
      refine ⟨{ t.committedState record.tablets ht with requestQueue := [] },
        hclear.committedState hstat record.tablets (by simp), rfl, ⟨rfl, rfl, rfl, rfl⟩, ?_,
        fun _ => zero_le _⟩
      simp only [TransactionState.afterReplicated, hl₁]
      rfl
  obtain ⟨t₁, hinv, hnone, hcore₁, heq, hbudget⟩ := hinv
  rw [heq]
  obtain ⟨new, hout, hcore, hinv', hidle, hans⟩ :=
    hinv.afterReplicated acts₁ timeout now hnone
  have hcore' := hcore₁.trans hcore
  refine ⟨new, { hout with budget := fun k => ?_ }, hcore'.id, .inr (.inr (.inl ⟨hrec,
    hcore'.status, hcore'.commitTime, hcore'.tablets.trans htabs, hinv', hidle⟩)), fun a ha => ?_⟩
  · exact (hout.budget k).trans (Nat.add_le_add_right (hbudget k) _)
  · rcases hans a ha with ha | ha
    · rcases mem_append.1 ha with ha | ha
      · exact .inl ha
      · exact .inr (.inr (.inr ⟨hrec, eq_of_mem_replicate ha⟩))
    · exact .inr (.inl (ha.trans (by rw [hcore₁.id]; rfl)))

/-- A replicated record that keeps the transaction pending. -/
lemma Inv.processReplicated_pending (h : Inv c t)
    (hrec : record.status = .created ∨ record.status = .pending)
    (hstat : t.status = .pending) :
    ProcessedTo c t acts record ht (t.processReplicated timeout now record ht acts) := by
  have hd : { t with replicating := none }.doProcessReplicated timeout record ht acts =
      { t with replicating := none }.pendingReplicationFinished timeout ht acts := by
    rcases hrec with hrec | hrec <;> simp only [doProcessReplicated, hrec]
  have hclear : Inv c { t with replicating := none } :=
    h.clear t.requestQueue (List.Sublist.refl _)
  -- a transaction with the queue that there was, and nothing that is replicating
  have haft : ∀ t₁ : TransactionState ι τ, Inv c t₁ → t₁.replicating = none →
      t₁.requestQueue = t.requestQueue → SameCore t t₁ →
      ProcessedTo c t acts record ht (t₁.afterReplicated timeout now acts) := by
    intro t₁ hinv hnone hque hcore
    obtain ⟨new, hout, hcore', hinv', hidle, hans⟩ :=
      hinv.afterReplicated acts timeout now hnone
    refine ⟨new, { hout with budget := ?_ },
      (hcore.trans hcore').id, .inr (.inr (.inr ⟨hrec, hcore.trans hcore', hinv', hidle⟩)),
      fun a ha => ?_⟩
    · rw [← hque]
      exact hout.budget
    · rcases hans a ha with ha | ha
      · exact .inl ha
      · exact .inr (.inl (ha.trans (by rw [hcore.id])))
  by_cases hexp : acts.leader = true ∧ { t with replicating := none }.expiredAt timeout ht = true
  · have hd' : { t with replicating := none }.doProcessReplicated timeout record ht acts =
        { t with replicating := none }.abort acts := by
      rw [hd, pendingReplicationFinished, if_pos hexp]
    rcases abort_cases { t with replicating := none } acts with heq | ⟨-, -, heq⟩
    · rw [heq] at hd'
      rw [processReplicated_of_not_completed hd' (by simp [completed, hstat])]
      exact haft _ hclear rfl rfl ⟨rfl, rfl, rfl, rfl⟩
    -- the transaction is aborted, and the queued requests wait for that
    rcases submitUpdateStatus_cases { t with replicating := none } .aborted acts with
      ⟨hrepl, -⟩ | ⟨-, -, heq'⟩ | ⟨-, hl, -⟩
    · exact absurd rfl hrepl
    · set r := ({ t with replicating := none } : TransactionState ι τ).newRequest .aborted acts
        with hr
      rw [heq, heq'] at hd'
      rw [processReplicated_of_not_completed hd' (by simp [completed, hstat])]
      rw [TransactionState.afterReplicated, if_pos (by exact hexp.1),
        processQueue_of_replicating rfl]
      refine ⟨[r], ⟨rfl, le_succ _, rfl, fun k => ?_, .inr ⟨r, rfl, rfl, ?_, hexp.1⟩⟩,
        rfl, .inr (.inr (.inr ⟨hrec, ⟨rfl, rfl, rfl, rfl⟩, ?_, fun hnone => nomatch hnone⟩)),
        fun a ha => .inl ha⟩
      · rw [numbered_newRequest]
      · simp [hstat, Allowed, hr, newRequest]
      · exact hclear.replicate rfl (canStart_aborted acts hstat)
    · rw [hexp.1] at hl
      cases hl
  · have hd' : { t with replicating := none }.doProcessReplicated timeout record ht acts =
        ({ t with replicating := none, lastTouch := ht }, acts) := by
      rw [hd, pendingReplicationFinished, if_neg hexp, if_neg (by simp [hstat])]
    rw [processReplicated_of_not_completed hd' (by simp [completed, hstat])]
    exact haft _ { hclear with } rfl rfl ⟨rfl, rfl, rfl, rfl⟩

variable (timeout now ht) in
/-- A record that can follow on the status of the transaction. On a leader it is the one that was
replicating. -/
lemma Inv.processReplicated (h : Inv c t) (hall : Allowed t.status record.status)
    (hlead : acts.leader = true → ∃ r, t.replicating = some r ∧ r.request = record) :
    ProcessedTo c t acts record ht (t.processReplicated timeout now record ht acts) := by
  rcases h.status with hstat | hstat
  · rw [hstat] at hall
    rcases hall with hs | hs | hs | hs
    · exact h.processReplicated_pending (.inl hs) hstat
    · exact h.processReplicated_pending (.inr hs) hstat
    · exact h.processReplicated_committed hs hstat hlead
    · exact processReplicated_aborted hs
  · rw [hstat] at hall
    exact processReplicated_appliedInAll hall

end Replicated

end TransactionState
