import ZNbase.Tablet.StatusTablet
import ZNbase.Tablet.TransactionRequests
import Mathlib.Data.List.Induction

/-!
# What the log of a status tablet says

The log decides what becomes of a transaction (`decision`). In a log without a record that cannot
follow on those before (`Legal`) a record of a commit, or of an abort, is the last word. A replica
that has processed a part of the log has for a transaction what that part says (`Agrees`).
-/

open List HybridTime TransactionState

/-- What the log says about a transaction. -/
inductive Decision (τ : Type)
  | undecided
  | committed (hybridTime : HybridTime) (tablets : List τ)
  | aborted
  /-- It was committed, and all involved tablets have applied it. -/
  | applied (hybridTime : HybridTime) (tablets : List τ)
  deriving DecidableEq

namespace Decision

variable {ι τ : Type}

/-- What a record of the transaction makes of it. -/
def next (d : Decision τ) (record : StatusRecord ι τ) : Decision τ :=
  match record.state.status, d with
  | .committed, .undecided => .committed record.hybridTime record.state.tablets
  | .aborted, _ => .aborted
  | .appliedInAllInvolvedTablets, .committed ht tablets => .applied ht tablets
  | _, d => d

/-- The records that can come next. -/
def Allows (d : Decision τ) (status : TransactionStatus) : Prop :=
  match d with
  | .undecided => Allowed .pending status
  | .committed _ _ => Allowed .committed status
  | .aborted | .applied _ _ => False

end Decision

section Log

variable {ι τ : Type} [DecidableEq ι] {id : ι} {log log' : List (StatusRecord ι τ)}
  {record : StatusRecord ι τ}

def decision (id : ι) (log : List (StatusRecord ι τ)) : Decision τ :=
  log.foldl (fun d record => if record.state.transactionId = id then d.next record
    else d) .undecided

lemma decision_append_singleton :
    decision id (log ++ [record]) =
      if record.state.transactionId = id then (decision id log).next record
        else decision id log := by
  simp [decision]

variable (log) in
lemma decision_append_of_ne (h : ∀ record ∈ log', record.state.transactionId ≠ id) :
    decision id (log ++ log') = decision id log := by
  induction log' using List.reverseRecOn with
  | nil => rw [append_nil]
  | append_singleton log' record ih =>
    rw [← append_assoc, decision_append_singleton, if_neg (h record (by simp)),
      ih fun r hr => h r (mem_append_left _ hr)]

/-- Every record can follow on those before. -/
def Legal (id : ι) (log : List (StatusRecord ι τ)) : Prop :=
  ∀ i record, log[i]? = some record → record.state.transactionId = id →
    (decision id (log.take i)).Allows record.state.status

/-- A log stays legal if the last record is allowed. -/
lemma Legal.append_singleton (h : Legal id log)
    (hrec : record.state.transactionId = id → (decision id log).Allows record.state.status) :
    Legal id (log ++ [record]) := by
  intro i r hr hid
  rcases lt_trichotomy i log.length with hi | rfl | hi
  · rw [getElem?_append_left hi] at hr
    rw [take_append_of_le_length hi.le]
    exact h i r hr hid
  · obtain rfl : record = r := by simpa using hr
    rw [take_left']
    · exact hrec hid
    · rfl
  · rw [getElem?_eq_none (by simp; omega)] at hr
    cases hr

lemma Legal.of_append (h : Legal id (log ++ log')) : Legal id log := by
  intro i r hr hid
  have hi : i < log.length := by
    by_contra hge
    rw [getElem?_eq_none (not_lt.1 hge)] at hr
    cases hr
  have hl := h i r (by rwa [getElem?_append_left hi]) hid
  rwa [take_append_of_le_length hi.le] at hl

lemma Legal.last (h : Legal id (log ++ [record])) :
    record.state.transactionId = id → (decision id log).Allows record.state.status := by
  intro hid
  have hl := h log.length record (by simp) hid
  rwa [take_left' rfl] at hl

/-- Records after others, of which at most one is of the transaction. -/
lemma Legal.append (h : Legal id log)
    (hlog : ∀ r ∈ log', r.state.transactionId = id → (decision id log).Allows r.state.status)
    (hone : log'.countP (fun r => r.state.transactionId = id) ≤ 1) : Legal id (log ++ log') := by
  induction log' using List.reverseRecOn with
  | nil => rwa [append_nil]
  | append_singleton log' record ih =>
    rw [countP_append] at hone
    have hprev := ih (fun r hr => hlog r (mem_append_left _ hr)) (by omega)
    rw [← append_assoc]
    refine hprev.append_singleton fun hid => ?_
    rw [decision_append_of_ne log]
    · exact hlog record (by simp) hid
    · intro r hr hrid
      have hpos : 0 < log'.countP fun r => r.state.transactionId = id :=
        countP_pos_iff.2 ⟨r, hr, by simpa using hrid⟩
      have hlast : [record].countP fun r => r.state.transactionId = id = 1 := by simp [hid]
      omega

variable (log) in
/-- Records after others, of which at most one is of the transaction. -/
lemma decision_append_of_countP (hone : log'.countP (fun r => r.state.transactionId = id) ≤ 1) :
    decision id (log ++ log') = decision id log ∨ ∃ record ∈ log', record.state.transactionId = id ∧
      decision id (log ++ log') = (decision id log).next record := by
  induction log' using List.reverseRecOn with
  | nil => exact .inl (by rw [append_nil])
  | append_singleton log' last ih =>
    rw [countP_append] at hone
    rw [← append_assoc, decision_append_singleton]
    by_cases hid : last.state.transactionId = id
    · have hlast : [last].countP fun r => r.state.transactionId = id = 1 := by simp [hid]
      have hzero : log'.countP fun r => r.state.transactionId = id = 0 := by omega
      have hnone : ∀ record ∈ log', record.state.transactionId ≠ id := by
        simpa using countP_eq_zero.1 hzero
      rw [if_pos hid, decision_append_of_ne _ hnone]
      exact .inr ⟨last, by simp, hid, rfl⟩
    · rw [if_neg hid]
      rcases ih (by omega) with hd | ⟨record, hrec, hrid, hd⟩
      · exact .inl hd
      · exact .inr ⟨record, mem_append_left _ hrec, hrid, hd⟩

/-- A decision stays, and only that all tablets have applied a commit comes to it. -/
lemma Legal.decision_append (h : Legal id (log ++ log')) :
    (decision id log = .aborted → decision id (log ++ log') = .aborted) ∧
    ∀ ht tablets, decision id log = .committed ht tablets →
      decision id (log ++ log') = .committed ht tablets ∨
        decision id (log ++ log') = .applied ht tablets := by
  induction log' using List.reverseRecOn with
  | nil =>
    rw [append_nil]
    exact ⟨fun h => h, fun _ _ h => .inl h⟩
  | append_singleton log' last ih =>
    rw [← append_assoc] at h ⊢
    obtain ⟨habt, hcom⟩ := ih h.of_append
    -- the last record was allowed by the decision before it
    have hlast : last.state.transactionId = id →
        (decision id (log ++ log')).Allows last.state.status := h.last
    rw [decision_append_singleton]
    refine ⟨fun hd => ?_, fun ht tablets hd => ?_⟩
    · rw [habt hd] at hlast ⊢
      split_ifs with hid
      · exact (hlast hid).elim
      · rfl
    · rcases hcom ht tablets hd with hd | hd
      · rw [hd] at hlast ⊢
        split_ifs with hid
        · have hs : last.state.status = .appliedInAllInvolvedTablets := hlast hid
          simp [Decision.next, hs]
        · exact .inl rfl
      · rw [hd] at hlast ⊢
        split_ifs with hid
        · exact (hlast hid).elim
        · exact .inr rfl

/-- What a legal log with a record of a commit says. -/
lemma Legal.decision_of_committed (h : Legal id log) (hrec : record ∈ log)
    (hid : record.state.transactionId = id) (hs : record.state.status = .committed) :
    decision id log = .committed record.hybridTime record.state.tablets ∨
      decision id log = .applied record.hybridTime record.state.tablets := by
  obtain ⟨before, after, rfl⟩ := append_of_mem hrec
  rw [append_cons] at h ⊢
  refine h.decision_append.2 _ _ ?_
  have hall := h.of_append.last hid
  rw [hs] at hall
  rw [decision_append_singleton, if_pos hid]
  cases hd : decision id before with
  | undecided => simp [Decision.next, hs]
  | committed _ _ =>
    rw [hd] at hall
    cases hall
  | aborted | applied _ _ =>
    rw [hd] at hall
    exact hall.elim

/-- An aborted transaction stays aborted. -/
lemma Legal.decision_of_aborted (h : Legal id log) (hrec : record ∈ log)
    (hid : record.state.transactionId = id) (hs : record.state.status = .aborted) :
    decision id log = .aborted := by
  obtain ⟨before, after, rfl⟩ := append_of_mem hrec
  rw [append_cons] at h ⊢
  refine h.decision_append.1 ?_
  rw [decision_append_singleton, if_pos hid]
  simp [Decision.next, hs]

end Log

/-- A replica has for a transaction what the log says. -/
def Agrees {ι τ : Type} [DecidableEq τ] (d : Decision τ) (t : Option (TransactionState ι τ)) :
    Prop :=
  match d, t with
  | .undecided, none => True
  | .undecided, some t => t.status = .pending
  | .committed ht tablets, some t => t.status = .committed ∧ t.commitTime = ht ∧
      t.involvedTablets.map Prod.fst = tablets.dedup
  | .committed _ _, none => False
  | .aborted, t => t = none
  | .applied _ _, t => t = none

section Agrees

variable {ι τ : Type} [DecidableEq τ]

/-- The status of a transaction and what the log says allow the same records. -/
lemma Agrees.allows_iff {d : Decision τ} {t : TransactionState ι τ} {status : TransactionStatus}
    (h : Agrees d (some t)) : d.Allows status ↔ Allowed t.status status := by
  cases d with
  | undecided => rw [show t.status = _ from h]; rfl
  | committed ht tablets =>
    obtain ⟨hs, -⟩ := h
    rw [hs]
    rfl
  | aborted | applied ht tablets => cases h

lemma Agrees.of_sameCore {d : Decision τ} {t t' : TransactionState ι τ} (h : Agrees d (some t))
    (hcore : SameCore t t') : Agrees d (some t') := by
  cases d with
  | undecided => exact hcore.status.trans h
  | committed ht tablets =>
    obtain ⟨hs, hcmt, htabs⟩ := h
    exact ⟨hcore.status.trans hs, hcore.commitTime.trans hcmt, hcore.tablets.trans htabs⟩
  | aborted | applied ht tablets => cases h

end Agrees
