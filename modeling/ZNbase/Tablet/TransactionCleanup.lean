import ZNbase.Tablet.TransactionParticipant
import ZNbase.Lib.Run
import ZNbase.Lib.Update

/-!
# Transactions that are being applied are not cleaned up

A transaction whose local commit time is set stays in `transactions_`, and its intents are not
scheduled for removal, until all of them have been applied to the regular DB.

The argument is about what the queues can have in them. An entry of the immediate cleanup queue is
about a transaction that is never applied or whose intents have all been applied (`Removable`). This
is because the remove queue waits for the safe time: by then, an `APPLYING` operation that there is
for the transaction has been processed, and the transaction has a local commit time. Nothing of this
kind holds for the graceful cleanup queue, since `CleanTransactionsQueue` does not look at the
transaction again. So there is a condition on the entries of this queue that are ready when it is
cleaned.
-/

open Function List HybridTime

namespace TransactionParticipant

variable {ι : Type} [DecidableEq ι]

/-- The local commit times of the transactions that there are. -/
def commitTimes (s : TransactionParticipant ι) (id : ι) : Option (Option HybridTime) :=
  (s.transactions id).map (·.localCommitTime)

/-- A change of the participant takes out only transactions that are `cleanable`, and adds only
transactions that are `removable` to the immediate cleanup queue. -/
structure Cleans (removable cleanable : ι → Prop) (s s' : TransactionParticipant ι) : Prop where
  commitTimes : ∀ id, s'.commitTimes id = s.commitTimes id ∨ s'.commitTimes id = none ∧ cleanable id
  immediate : ∀ e ∈ s'.immediateCleanupQueue, e ∈ s.immediateCleanupQueue ∨
    removable e.transactionId
  graceful : ∀ e ∈ s'.gracefulCleanupQueue, e ∈ s.gracefulCleanupQueue
  removeQueue : ∀ e ∈ s'.removeQueue, e ∈ s.removeQueue
  tasks : ∀ id ∈ s'.removeIntentsTasks, id ∈ s.removeIntentsTasks ∨ s'.commitTimes id = none

variable {removable cleanable : ι → Prop} {s s' s'' : TransactionParticipant ι} {id : ι}

namespace Cleans

section

omit [DecidableEq ι]

/-- A change of other fields. -/
lemma of_eq (hcommitTimes : s'.commitTimes = s.commitTimes)
    (himm : s'.immediateCleanupQueue = s.immediateCleanupQueue)
    (hgrac : s'.gracefulCleanupQueue = s.gracefulCleanupQueue)
    (hremoveQueue : s'.removeQueue = s.removeQueue)
    (htasks : s'.removeIntentsTasks = s.removeIntentsTasks) : Cleans removable cleanable s s' where
  commitTimes id := .inl (by rw [hcommitTimes])
  immediate e he := .inl (himm ▸ he)
  graceful e he := hgrac ▸ he
  removeQueue e he := hremoveQueue ▸ he
  tasks id hid := .inl (htasks ▸ hid)

lemma refl (s : TransactionParticipant ι) : Cleans removable cleanable s s :=
  of_eq rfl rfl rfl rfl rfl

/-- Two calls that clean up, one after the other. -/
lemma trans (h : Cleans removable cleanable s s') (h' : Cleans removable cleanable s' s'') :
    Cleans removable cleanable s s'' where
  commitTimes id := by
    rcases h'.commitTimes id with heq' | ⟨hnone, hclean⟩
    · rw [heq']
      exact h.commitTimes id
    · exact .inr ⟨hnone, hclean⟩
  immediate e he := (h'.immediate e he).elim (h.immediate e) .inr
  graceful e he := h.graceful e (h'.graceful e he)
  removeQueue e he := h.removeQueue e (h'.removeQueue e he)
  tasks id hid := by
    refine (h'.tasks id hid).elim (fun hid' => ?_) .inr
    refine (h.tasks id hid').imp_right fun hnone => ?_
    rcases h'.commitTimes id with heq | ⟨heq, -⟩
    · exact heq.trans hnone
    · exact heq

end

end Cleans

/-- The commit time of a transaction that is set. -/
lemma commitTimes_setTransaction (s : TransactionParticipant ι) (id : ι)
    (txn : Option RunningTransaction) :
    (s.setTransaction id txn).commitTimes = update s.commitTimes id (txn.map (·.localCommitTime)) :=
  funext fun id' =>
    apply_update (fun _ => Option.map RunningTransaction.localCommitTime) _ id txn id'

variable (context : ParticipantContext)

/-- The intents of a transaction that may be cleaned up are scheduled for removal. -/
lemma cleans_cleanTransaction (h : cleanable id) :
    Cleans removable cleanable s (s.cleanTransaction context id) := by
  unfold cleanTransaction
  cases htxn : s.transactions id with
  | none => exact .refl s
  | some txn =>
    -- whether or not there was a task already, only `transactions_`, the tasks and the transactions
    -- that
    -- were removed recently change
    have htransactions : ∀ id', id' ≠ id →
        (s.scheduleRemoveIntents id txn).transactions id' = s.transactions id' := by
      intro id' hid'
      unfold scheduleRemoveIntents
      split_ifs <;> simp [setTransaction, hid']
    have htasks : ∀ id' ∈ (s.scheduleRemoveIntents id txn).removeIntentsTasks,
        id' ∈ s.removeIntentsTasks ∨ id' = id := by
      intro id' hid'
      unfold scheduleRemoveIntents at hid'
      split_ifs at hid'
      · exact .inl hid'
      · simpa using hid'
    have hqueues : (s.scheduleRemoveIntents id txn).immediateCleanupQueue =
        s.immediateCleanupQueue ∧
        (s.scheduleRemoveIntents id txn).gracefulCleanupQueue = s.gracefulCleanupQueue ∧
        (s.scheduleRemoveIntents id txn).removeQueue = s.removeQueue := by
      unfold scheduleRemoveIntents
      split_ifs <;> exact ⟨rfl, rfl, rfl⟩
    have hself : ((s.scheduleRemoveIntents id txn).removeTransaction context id).commitTimes id =
        none := by
      simp [commitTimes, removeTransaction, setTransaction]
    refine ⟨fun id' => ?_, fun e he => .inl (hqueues.1 ▸ he), fun e he => hqueues.2.1 ▸ he,
      fun e he => hqueues.2.2 ▸ he, fun id' hid' => ?_⟩
    · by_cases hid : id' = id
      · subst hid
        exact .inr ⟨hself, h⟩
      · exact .inl (by simp [commitTimes, removeTransaction, setTransaction, hid,
          cleanupRecentlyRemovedTransactions, htransactions])
    · rcases htasks id' hid' with htask | rfl
      · exact .inl htask
      · exact .inr hself

/-- A transaction is removed at once, or when the running requests have ended. -/
lemma cleans_removeUnlocked (hrem : removable id) (hclean : cleanable id) :
    Cleans removable cleanable s (s.removeUnlocked context id) := by
  unfold removeUnlocked
  cases s.transactions id with
  | none => exact .refl s
  | some txn =>
    split_ifs
    · exact cleans_cleanTransaction context hclean
    exact {
      commitTimes := fun id' => .inl rfl
      immediate := fun e he => by
        rcases mem_append.1 he with he | he
        · exact .inl he
        · obtain rfl : e = ⟨s.requestSerial, id⟩ := by simpa using he
          exact .inr hrem
      graceful := fun e he => he
      removeQueue := fun e he => he
      tasks := fun id' hid' => .inl hid' }

variable {P : TransactionParticipant ι → Prop}

/-- What every removal keeps, the loop over the remove queue keeps. -/
lemma processRemoveQueueLoop_induction (queue : List (RemoveQueueEntry ι))
    (hrem : ∀ s, P s → ∀ e ∈ queue, s.commitTimes e.id = some none → e.time < context.safeTime →
      P (s.removeUnlocked context e.id)) (hs : P s) :
    P (processRemoveQueueLoop context queue s).2 ∧ ∀ e ∈ (processRemoveQueueLoop context queue s).1,
      e ∈ queue := by
  induction queue generalizing s with
  | nil => exact ⟨hs, fun e he => he⟩
  | cons front queue ih =>
    have hrest : ∀ {s}, P s → P (processRemoveQueueLoop context queue s).2 ∧
        ∀ e ∈ (processRemoveQueueLoop context queue s).1, e ∈ front :: queue := by
      intro s hs
      obtain ⟨hloop, hleft⟩ := ih (fun s hs e he => hrem s hs e (.tail _ he)) hs
      exact ⟨hloop, fun e he => .tail _ (hleft e he)⟩
    -- gone or committed: skipped; not below the safe time: the loop ends
    unfold processRemoveQueueLoop
    cases htxn : s.transactions front.id with
    | none => exact hrest hs
    | some txn =>
      simp only
      split_ifs with hcmt hsafe
      · exact hrest hs
      · exact ⟨hs, fun e he => he⟩
      · refine hrest (hrem s hs front mem_cons_self ?_ (not_le.1 hsafe))
        simpa [commitTimes, htxn] using hcmt

/-- The remove queue is handled up to the safe time. -/
lemma cleans_processRemoveQueueUnlocked
    (hque : context.safeTime.isValid → ∀ e ∈ s.removeQueue, s.commitTimes e.id = some none →
      e.time < context.safeTime → removable e.id ∧ cleanable e.id) :
    Cleans removable cleanable s (s.processRemoveQueueUnlocked context) := by
  unfold processRemoveQueueUnlocked
  split_ifs with hnil hval
  · exact .refl s
  · have hremove : ∀ s', Cleans removable cleanable s s' → ∀ e ∈ s.removeQueue,
        s'.commitTimes e.id = some none → e.time < context.safeTime →
        Cleans removable cleanable s (s'.removeUnlocked context e.id) := by
      intro s' hs' e he htimes hready
      -- the transaction had no local commit time before the loop either
      rcases hs'.commitTimes e.id with heq | ⟨hnone, -⟩
      · obtain ⟨hrem, hclean⟩ := hque hval e he (heq ▸ htimes) hready
        exact hs'.trans (cleans_removeUnlocked context hrem hclean)
      · simp [hnone] at htimes
    obtain ⟨hloop, hleft⟩ := processRemoveQueueLoop_induction context s.removeQueue hremove
      (s := { s with lastSafeTime := context.safeTime }) (.of_eq rfl rfl rfl rfl rfl)
    exact { hloop with removeQueue := hleft }
  · exact .refl s

/-- What every transaction that is taken out keeps, the cleaning of a queue keeps. -/
lemma cleanTransactionsQueue_induction {α : Type}
    {requestId : α → ℕ} {transactionId : α → ι} (ready : α → Bool) {queue : List α}
    (hclean : ∀ s, P s → ∀ e ∈ queue, s.runningRequests.head?.any (· ≤ requestId e) = false →
      ready e = true → P (s.cleanTransaction context (transactionId e))) (hs : P s) :
    P (cleanTransactionsQueue requestId transactionId ready context queue s).2 ∧
      ∀ e ∈ (cleanTransactionsQueue requestId transactionId ready context queue s).1,
        e ∈ queue := by
  induction queue generalizing s with
  | nil => exact ⟨hs, fun e he => he⟩
  | cons front queue ih =>
    unfold cleanTransactionsQueue
    split_ifs with hreq hready
    · exact ⟨hs, fun e he => he⟩
    · exact ⟨hs, fun e he => he⟩
    · obtain ⟨hloop, hleft⟩ := ih (fun s hs e he => hclean s hs e (.tail _ he))
        (hclean s hs front mem_cons_self (by simpa using hreq) (by simpa using hready))
      exact ⟨hloop, fun e he => .tail _ (hleft e he)⟩

/-- The queue of immediate cleanups is handled. -/
lemma cleans_cleanImmediateQueue (hque : ∀ e ∈ s.immediateCleanupQueue, cleanable e.transactionId) :
    Cleans removable cleanable s (s.cleanImmediateQueue context) := by
  obtain ⟨hloop, hleft⟩ := cleanTransactionsQueue_induction context (fun _ => true)
    (P := Cleans removable cleanable s)
    (fun s' hs' e he _ _ => hs'.trans (cleans_cleanTransaction context (hque e he))) (.refl s)
  exact { hloop with immediate := fun e he => .inl (hleft e he) }

/-- The queue of graceful cleanups is handled up to the safe time. -/
lemma cleans_cleanGracefulQueue
    (hque : ∀ e ∈ s.gracefulCleanupQueue, e.requiredSafeTime ≤ context.safeTime →
      cleanable e.transactionId) :
    Cleans removable cleanable s (s.cleanGracefulQueue context) := by
  obtain ⟨hloop, hleft⟩ := cleanTransactionsQueue_induction context
    (fun e => e.requiredSafeTime ≤ context.safeTime) (P := Cleans removable cleanable s)
    (fun s' hs' e he _ hready => hs'.trans
      (cleans_cleanTransaction context (hque e he (of_decide_eq_true hready)))) (.refl s)
  exact { hloop with graceful := hleft }

end TransactionParticipant

namespace ParticipantSystem

open TransactionParticipant

variable {ι : Type} [DecidableEq ι]

/-- While its intents are being applied, a transaction is in `transactions_` with its local commit
time, and no remove intents task was scheduled for it. -/
def NotCleanedUpEarly (w : ParticipantSystem ι) : Prop :=
  ∀ id ∈ w.committed, id ∉ w.applied →
    (∃ txn, w.participant.transactions id = some txn ∧ txn.localCommitTime.isSome = true) ∧
      id ∉ w.participant.removeIntentsTasks

/-! ## The environment -/

section Environment

-- the hybrid times of the first `APPLYING` operations; a transaction without one is aborted
variable (applyTime : ι → Option HybridTime)

variable (w : ParticipantSystem ι)

/-- A transaction is said to be aborted only if it is or if the clock has passed the `APPLYING`
operation: the status tablet forgets a transaction after it was applied, and its clock comes with
the reply. -/
def MaySayAborted (id : ι) : Prop := ∀ t ∈ applyTime id, t ≤ w.context.now

/-- What the participant relies on. -/
def Admissible : Event ι → Prop
  /- Operations up to the safe time have been processed. -/
  | .clock context => context.safeTime.isValid →
    ∀ id, ∀ t ∈ applyTime id, t ≤ context.safeTime → id ∈ w.processed
  /- The intents of a transaction are written before its `APPLYING` operation, and before it is
  cleaned up. -/
  | .add id => id ∉ w.processed ∧ id ∉ w.participant.removeIntentsTasks
  | .processApply id _ => (applyTime id).isSome
  | .statusReceived id status _ => status = .aborted → MaySayAborted applyTime w id
  | .abortReceived id result => result.status = .aborted → MaySayAborted applyTime w id
  | .enqueueRemove id => MaySayAborted applyTime w id
  /- Immediate cleanup is for aborted transactions. -/
  | .cleanup id .immediate => applyTime id = none
  | _ => True

/-- The steps of the participant in its environment. -/
def EnvStep : ParticipantSystem ι → Event ι → ParticipantSystem ι → Prop :=
  Restrict (Admissible applyTime) Step

/-- A transaction that is never applied, or whose intents have all been applied. -/
def Removable (id : ι) : Prop := applyTime id = none ∨ id ∈ w.applied

/-- What holds between steps. -/
structure CleanupInv (w : ParticipantSystem ι) : Prop where
  kept : ∀ id ∈ w.committed, id ∉ w.applied → ∃ t, w.participant.commitTimes id = some (some t)
  removed : ∀ id ∈ w.participant.removeIntentsTasks, w.participant.commitTimes id = none
  committed : ∀ id ∈ w.committed, id ∈ w.processed ∧ applyTime id ≠ none
  processed : ∀ id ∈ w.processed, w.participant.commitTimes id ≠ some none
  commitTime : ∀ id t, w.participant.commitTimes id = some (some t) → id ∈ w.committed
  immediate : ∀ e ∈ w.participant.immediateCleanupQueue, Removable applyTime w e.transactionId
  removeQueue : ∀ e ∈ w.participant.removeQueue, ∀ t ∈ applyTime e.id, t ≤ e.time
  safeTime : w.context.safeTime.isValid →
    ∀ id, ∀ t ∈ applyTime id, t ≤ w.context.safeTime → id ∈ w.processed
  calls : ∀ id, w.applyCalls id = some (.applied false) → id ∈ w.applied
  tasks : ∀ id, w.applyTasks id = some (.applied false) ∨ w.applyTasks id = some .finished →
    id ∈ w.applied

end Environment

variable {applyTime : ι → Option HybridTime} {w w' : ParticipantSystem ι}
  {s : TransactionParticipant ι} {id : ι}

/-- A transaction that the participant may take out. -/
def Cleanable (w : ParticipantSystem ι) (id : ι) : Prop := id ∈ w.committed → id ∈ w.applied

section

variable (h : CleanupInv applyTime w)

include h

section

omit [DecidableEq ι]

/-- A transaction that may be removed may be cleaned up. -/
lemma CleanupInv.cleanable (hid : Removable applyTime w id) : w.Cleanable id := by
  intro hcom
  rcases hid with hnone | happl
  · exact absurd hnone (h.committed id hcom).2
  · exact happl

/-- The invariant says that nothing is cleaned up early. -/
lemma CleanupInv.notCleanedUpEarly : NotCleanedUpEarly w := by
  intro id hcom happl
  obtain ⟨t, ht⟩ := h.kept id hcom happl
  obtain ⟨txn, htxn, hct⟩ := Option.map_eq_some_iff.1 ht
  refine ⟨⟨txn, htxn, by simp [hct]⟩, fun htask => ?_⟩
  simp [h.removed id htask] at ht

/-- A step that only cleans. -/
lemma CleanupInv.of_cleans (hcleans : Cleans (Removable applyTime w) w.Cleanable w.participant s) :
    CleanupInv applyTime { w with participant := s } where
  kept id hcom happl := by
    -- a committed transaction is only removed once its intents are applied
    obtain ⟨t, ht⟩ := h.kept id hcom happl
    refine ⟨t, ?_⟩
    rcases hcleans.commitTimes id with heq | ⟨-, hclean⟩
    · exact heq.trans ht
    · exact absurd (hclean hcom) happl
  removed id hid := by
    refine (hcleans.tasks id hid).elim (fun hid' => ?_) fun hnone => hnone
    rcases hcleans.commitTimes id with heq | ⟨heq, -⟩
    · exact heq.trans (h.removed id hid')
    · exact heq
  committed := h.committed
  processed id hid hnone := by
    rcases hcleans.commitTimes id with heq | ⟨heq, -⟩
    · exact h.processed id hid (heq.symm.trans hnone)
    · simp [show s.commitTimes id = none from heq] at hnone
  commitTime id t ht := by
    rcases hcleans.commitTimes id with heq | ⟨heq, -⟩
    · exact h.commitTime id t (heq.symm.trans ht)
    · simp [show s.commitTimes id = none from heq] at ht
  immediate e he := (hcleans.immediate e he).elim (h.immediate e) id
  removeQueue e he := h.removeQueue e (hcleans.removeQueue e he)
  safeTime := h.safeTime
  calls := h.calls
  tasks := h.tasks

/-- An entry of the remove queue that is ready is about a transaction that can be removed. -/
lemma CleanupInv.removable_of_ready (hval : w.context.safeTime.isValid)
    {e : RemoveQueueEntry ι} (he : ∀ t ∈ applyTime e.id, t ≤ e.time)
    (hnone : w.participant.commitTimes e.id = some none) (hready : e.time < w.context.safeTime) :
    Removable applyTime w e.id ∧ w.Cleanable e.id := by
  have hrem : Removable applyTime w e.id := by
    cases ht : applyTime e.id with
    | none => exact .inl ht
    | some t =>
      -- the operation has been processed, so that there is a local commit time
      have hprocessed := h.safeTime hval e.id t ht ((he t ht).trans hready.le)
      exact absurd hnone (h.processed e.id hprocessed)
  exact ⟨hrem, h.cleanable hrem⟩

end

/-- What a pass over the remove queue takes out. -/
lemma CleanupInv.poll : Cleans (Removable applyTime w) w.Cleanable w.participant
      (w.participant.processRemoveQueueUnlocked w.context) :=
  cleans_processRemoveQueueUnlocked _ fun hval e he =>
    h.removable_of_ready hval (h.removeQueue e he)

/-- A transaction that was said to be aborted is added to the remove queue. -/
lemma CleanupInv.enqueueRemove (hid : MaySayAborted applyTime w id) :
    CleanupInv applyTime (w.withParticipant (·.enqueueRemoveUnlocked · id)) := by
  have henq : CleanupInv applyTime { w with participant :=
      { w.participant with removeQueue := w.participant.removeQueue ++ [⟨id, w.context.now⟩] } } :=
    { h with
      removeQueue := fun e he => by
        rcases mem_append.1 he with he | he
        · exact h.removeQueue e he
        · obtain rfl : e = ⟨id, w.context.now⟩ := by simpa using he
          exact hid }
  exact henq.of_cleans henq.poll

/-- A transaction that may be removed is removed. -/
lemma CleanupInv.removeUnlocked (hid : Removable applyTime w id) :
    CleanupInv applyTime (w.withParticipant (·.removeUnlocked · id)) :=
  h.of_cleans (cleans_removeUnlocked _ hid (h.cleanable hid))

/-- A transaction is replaced by one with the same local commit time. -/
lemma CleanupInv.setTransaction {txn : Option RunningTransaction}
    (htxn : txn.map (·.localCommitTime) = w.participant.commitTimes id) :
    CleanupInv applyTime { w with participant := w.participant.setTransaction id txn } :=
  h.of_cleans (.of_eq (by rw [commitTimes_setTransaction, htxn, update_eq_self]) rfl rfl rfl rfl)

/-- The queues are cleaned, if what is ready in the graceful one may be taken out. -/
lemma CleanupInv.cleanTransactionsUnlocked (hgrac : ∀ e ∈ w.participant.gracefulCleanupQueue,
      e.requiredSafeTime ≤ w.context.safeTime → w.Cleanable e.transactionId) :
    CleanupInv applyTime (w.withParticipant (·.cleanTransactionsUnlocked ·)) := by
  have hremove := h.poll
  have himm : Cleans (Removable applyTime w) w.Cleanable w.participant
      ((w.participant.processRemoveQueueUnlocked w.context).cleanImmediateQueue w.context) := by
    refine hremove.trans (cleans_cleanImmediateQueue _ fun e he => h.cleanable ?_)
    exact (hremove.immediate e he).elim (h.immediate e) fun hrem => hrem
  refine h.of_cleans (himm.trans (cleans_cleanGracefulQueue _ fun e he => ?_))
  exact hgrac e (himm.graceful e he)

/-- A request ends, and cleanups that waited for it are done. -/
lemma CleanupInv.unregisterRequest (request : ℕ) (hgrac : ∀ e ∈ w.participant.gracefulCleanupQueue,
      e.requiredSafeTime ≤ w.context.safeTime → w.Cleanable e.transactionId) :
    CleanupInv applyTime (w.withParticipant (·.unregisterRequest · request)) := by
  simp only [withParticipant, TransactionParticipant.unregisterRequest]
  split
  · exact h
  split_ifs
  · exact { h with }
  next front rest hrequests hfront =>
  have hpop : CleanupInv applyTime { w with participant := { w.participant with
      runningRequests := (popCompleteRequests rest w.participant.completeRequests).1
      completeRequests := (popCompleteRequests rest w.participant.completeRequests).2 } } :=
    { h with }
  exact hpop.cleanTransactionsUnlocked hgrac

end

section

variable (h : CleanupInv applyTime w)

include h

/-- A transaction is added. -/
lemma CleanupInv.add (hid : id ∉ w.processed) (htask : id ∉ w.participant.removeIntentsTasks) :
    CleanupInv applyTime (w.withParticipant (·.add · id)) := by
  have hclean : CleanupInv applyTime { w with participant :=
      w.participant.cleanupRecentlyRemovedTransactions w.context.coarseNow } := { h with }
  simp only [withParticipant, TransactionParticipant.add]
  split_ifs with hsome hrecent hcache
  · exact h
  · exact hclean
  · exact { hclean with }
  -- a new transaction, which has no local commit time and was not processed
  have hoth : ∀ id' ∈ w.processed, id' ≠ id := fun id' hid' heq => hid (heq ▸ hid')
  exact { hclean with
    kept := fun id' hcom happl => by
      rw [commitTimes_setTransaction, update_of_ne (hoth id' (h.committed id' hcom).1)]
      exact hclean.kept id' hcom happl
    removed := fun id' hid' => by
      rw [commitTimes_setTransaction, update_of_ne (ne_of_mem_of_not_mem hid' htask)]
      exact hclean.removed id' hid'
    processed := fun id' hid' => by
      rw [commitTimes_setTransaction, update_of_ne (hoth id' hid')]
      exact hclean.processed id' hid'
    commitTime := fun id' t ht => by
      rw [commitTimes_setTransaction] at ht
      rcases update_eq_some_iff.1 ht with ⟨-, ht⟩ | ⟨-, ht⟩
      · cases ht
      · exact hclean.commitTime id' t ht }

/-- The record that a transaction is applied is processed. -/
lemma CleanupInv.processApply (hid : (applyTime id).isSome = true)
    (commitHt : HybridTime) : CleanupInv applyTime (w.processApply id commitHt) := by
  have hproc (hnone : w.participant.commitTimes id ≠ some none) :
      CleanupInv applyTime { w with processed := id :: w.processed } :=
    { h with
      committed := fun id' hid' =>
        ⟨mem_cons_of_mem _ (h.committed id' hid').1, (h.committed id' hid').2⟩
      processed := fun id' hid' => by
        rcases mem_cons.1 hid' with rfl | hid'
        · exact hnone
        · exact h.processed id' hid'
      safeTime := fun hval id' t ht hle => mem_cons_of_mem _ (h.safeTime hval id' t ht hle) }
  unfold ParticipantSystem.processApply
  simp only
  cases htxn : w.participant.transactions id with
  | none => exact hproc (by simp [commitTimes, htxn])
  | some txn =>
    simp only
    split_ifs with hcmt
    · exact hproc (by simpa [commitTimes, htxn, Option.isSome_iff_ne_none] using hcmt)
    -- the local commit time is set, in a transaction without a remove intents task
    have htask : ∀ id' ∈ w.participant.removeIntentsTasks, id' ≠ id := by
      rintro id' hid' rfl
      simpa [commitTimes, htxn] using h.removed id' hid'
    exact {
      kept := fun id' hcom happl => by
        rw [commitTimes_setTransaction, update_apply]
        split_ifs with hid'
        · exact ⟨commitHt, rfl⟩
        · exact h.kept id' ((mem_cons.1 hcom).resolve_left hid') happl
      removed := fun id' hid' => by
        rw [commitTimes_setTransaction, update_of_ne (htask id' hid')]
        exact h.removed id' hid'
      committed := fun id' hid' => by
        rcases mem_cons.1 hid' with rfl | hid'
        · exact ⟨mem_cons_self, Option.isSome_iff_ne_none.1 hid⟩
        · exact ⟨mem_cons_of_mem _ (h.committed id' hid').1, (h.committed id' hid').2⟩
      processed := fun id' hid' => by
        rw [commitTimes_setTransaction, update_apply]
        split_ifs with heq
        · simp [RunningTransaction.setLocalCommitTime]
        · exact h.processed id' ((mem_cons.1 hid').resolve_left heq)
      commitTime := fun id' t ht => by
        rw [commitTimes_setTransaction] at ht
        rcases update_eq_some_iff.1 ht with ⟨rfl, -⟩ | ⟨-, ht⟩
        · exact mem_cons_self
        · exact mem_cons_of_mem _ (h.commitTime id' t ht)
      immediate := h.immediate
      removeQueue := h.removeQueue
      safeTime := fun hval id' t ht hle => mem_cons_of_mem _ (h.safeTime hval id' t ht hle)
      calls := fun id' hid' => by
        rcases update_eq_some_iff.1 hid' with ⟨-, hid'⟩ | ⟨-, hid'⟩
        · cases hid'
        · exact h.calls id' hid'
      tasks := h.tasks }

omit [DecidableEq ι] in
/-- Intents are applied, by a call or by a task, which then knows whether there are any left. -/
lemma CleanupInv.intentsApplied (active : Bool)
    {applyCalls : ι → Option ApplyCall} {applyTasks : ι → Option ApplyTask}
    (hcalls : ∀ id', applyCalls id' = some (.applied false) →
      w.applyCalls id' = some (.applied false) ∨ id' = id ∧ active = false)
    (htasks : ∀ id', applyTasks id' = some (.applied false) ∨ applyTasks id' = some .finished →
      (w.applyTasks id' = some (.applied false) ∨ w.applyTasks id' = some .finished) ∨ id' = id ∧
        active = false) :
    CleanupInv applyTime (({ w with applyCalls, applyTasks } : ParticipantSystem ι).intentsApplied
      id active) := by
  unfold ParticipantSystem.intentsApplied
  split_ifs with hact
  · exact { h with
      calls := fun id' hid' => h.calls id' ((hcalls id' hid').resolve_right (by simp [hact]))
      tasks := fun id' hid' => h.tasks id' ((htasks id' hid').resolve_right (by simp [hact])) }
  exact { h with
    kept := fun id' hcom happl =>
      h.kept id' hcom fun hmem => happl (mem_cons_of_mem _ hmem)
    immediate := fun e he => (h.immediate e he).imp_right (mem_cons_of_mem _)
    calls := fun id' hid' => (hcalls id' hid').elim
      (fun hcall => mem_cons_of_mem _ (h.calls id' hcall)) fun heq => heq.1 ▸ mem_cons_self
    tasks := fun id' hid' => (htasks id' hid').elim
      (fun htask => mem_cons_of_mem _ (h.tasks id' htask)) fun heq => heq.1 ▸ mem_cons_self }

/-- A call ends. -/
lemma CleanupInv.endCall :
    CleanupInv applyTime { w with applyCalls := update w.applyCalls id none } :=
  { h with
    calls := (forall_update_iff w.applyCalls fun id' call =>
      call = some (.applied false) → id' ∈ w.applied).2 ⟨by simp, fun id' _ => h.calls id'⟩ }

/-- A task goes on, and what has to have been applied was. -/
lemma CleanupInv.setTask {task : Option ApplyTask}
    (htask : task = some (.applied false) ∨ task = some .finished → id ∈ w.applied) :
    CleanupInv applyTime { w with applyTasks := update w.applyTasks id task } :=
  { h with
    tasks := (forall_update_iff w.applyTasks fun id' task =>
      task = some (.applied false) ∨ task = some .finished → id' ∈ w.applied).2
      ⟨htask, fun id' _ => h.tasks id'⟩ }

/-- The intents of a transaction are applied, or those of a large one will be by a task. -/
lemma CleanupInv.updateAppliedTransaction {active : Bool}
    (hcall : w.applyCalls id = some (.applied active)) :
    CleanupInv applyTime (w.updateAppliedTransaction id active) := by
  have hdone : CleanupInv applyTime { w with applyCalls := update w.applyCalls id none } :=
    h.endCall
  unfold ParticipantSystem.updateAppliedTransaction
  simp only
  cases htxn : w.participant.transactions id with
  | none => exact hdone
  | some txn =>
    simp only
    split_ifs with hact hused
    · have hact' : active = false := by simpa using hact
      exact hdone.removeUnlocked (.inr (h.calls id (hact' ▸ hcall)))
    · exact hdone.setTransaction (by simp [commitTimes, htxn])
    exact (hdone.setTask (by simp)).setTransaction (by simp [commitTimes, htxn])

/-- A task has applied some of the intents. -/
lemma CleanupInv.taskSetApplyData {active : Bool}
    (htask : w.applyTasks id = some (.applied active)) :
    CleanupInv applyTime (w.taskSetApplyData id active) := by
  have hset : CleanupInv applyTime { w with
      applyTasks := update w.applyTasks id (some (if active then .running else .finished)) } := by
    refine h.setTask fun hid => ?_
    cases active with
    | true => simp at hid
    | false => exact h.tasks id (.inl htask)
  exact hset.setTransaction (by simp [commitTimes, Function.comp_def])

/-- A task that has applied all intents removes the transaction. -/
lemma CleanupInv.taskRemove (htask : w.applyTasks id = some .finished) :
    CleanupInv applyTime (({ w with applyTasks := update w.applyTasks id none } :
      ParticipantSystem ι).withParticipant (·.removeUnlocked · id)) :=
  (h.setTask (by simp)).removeUnlocked (.inr (h.tasks id (.inr htask)))

/-- A reply about a transaction, which does not change the local commit time. -/
lemma CleanupInv.reply {txn txn' : RunningTransaction} {remove : Bool}
    (htxn : w.participant.transactions id = some txn)
    (hct : txn'.localCommitTime = txn.localCommitTime)
    (hrem : remove = true → MaySayAborted applyTime w id) :
    CleanupInv applyTime { w with participant :=
      if remove then
        (w.participant.setTransaction id (some txn')).enqueueRemoveUnlocked w.context id
      else w.participant.setTransaction id (some txn') } := by
  have hset :
      CleanupInv applyTime { w with participant := w.participant.setTransaction id (some txn') } :=
    h.setTransaction (by simp [commitTimes, htxn, hct])
  split_ifs with hif
  · exact hset.enqueueRemove (hrem hif)
  · exact hset

end

/-- A status says to clean up only if it is "aborted", and does not change the local commit time. -/
lemma updateStatus_spec (txn : RunningTransaction) (status : TransactionStatus) (t : HybridTime) :
    (txn.updateStatus status t).2.localCommitTime = txn.localCommitTime ∧
      ((txn.updateStatus status t).1 = true → status = .aborted) := by
  unfold RunningTransaction.updateStatus
  split_ifs
  · exact ⟨rfl, by simp⟩
  · simp only
    split_ifs <;> exact ⟨rfl, by simp⟩

/-- So does the reply to an abort. -/
lemma abortReceived_spec (txn : RunningTransaction) (result : TransactionStatusResult) :
    (txn.abortReceived result).2.localCommitTime = txn.localCommitTime ∧
      ((txn.abortReceived result).1 = true → result.status = .aborted) := by
  unfold RunningTransaction.abortReceived
  split_ifs
  · simp only
    split_ifs <;> exact ⟨rfl, by simp⟩
  · exact ⟨rfl, by simp⟩

/-- A status is received. -/
lemma CleanupInv.statusReceived (h : CleanupInv applyTime w) {status : TransactionStatus}
    {timeOfStatus : HybridTime} (hid : status = .aborted → MaySayAborted applyTime w id) :
    CleanupInv applyTime (w.withParticipant (·.statusReceived · id status timeOfStatus)) := by
  simp only [withParticipant, TransactionParticipant.statusReceived]
  cases htxn : w.participant.transactions id with
  | none => exact h
  | some txn =>
    obtain ⟨hct, hrem⟩ := updateStatus_spec txn status timeOfStatus
    exact h.reply htxn hct fun hr => hid (hrem hr)

/-- The reply to an abort is received. -/
lemma CleanupInv.abortReceived (h : CleanupInv applyTime w) {result : TransactionStatusResult}
    (hid : result.status = .aborted → MaySayAborted applyTime w id) :
    CleanupInv applyTime (w.withParticipant (·.abortReceived · id result)) := by
  simp only [withParticipant, TransactionParticipant.abortReceived]
  cases htxn : w.participant.transactions id with
  | none => exact h
  | some txn =>
    obtain ⟨hct, hrem⟩ := abortReceived_spec txn result
    exact h.reply htxn hct fun hr => hid (hrem hr)

/-- A cleanup request is processed. -/
lemma CleanupInv.cleanup (h : CleanupInv applyTime w) {cleanupType : CleanupType}
    (hid : cleanupType = .immediate → applyTime id = none) :
    CleanupInv applyTime (w.withParticipant (·.processCleanup · id cleanupType)) := by
  simp only [withParticipant, processCleanup]
  cases w.participant.transactions id with
  | none =>
    simp only
    split_ifs
    · exact { h with }
    · exact h
  | some txn =>
    simp only
    split_ifs with happly hgrac
    · exact h
    · exact { h with }
    · -- only an immediate cleanup removes it here, and no commit is expected then
      have himm : cleanupType = .immediate := by
        cases cleanupType with
        | graceful => exact absurd rfl hgrac
        | immediate => rfl
      exact h.removeUnlocked (.inl (hid himm))

/-! ## Runs -/

/-- When the queues are cleaned, an entry of the graceful cleanup queue that is ready is not about a
transaction whose intents are being applied. -/
def GracefulCleanupAfterApply (w : ParticipantSystem ι) : Event ι → Prop
  | .unregisterRequest _ => ∀ e ∈ w.participant.gracefulCleanupQueue,
      e.requiredSafeTime ≤ w.context.safeTime → e.transactionId ∈ w.committed →
        e.transactionId ∈ w.applied
  | _ => True

/-- A participant that has been loaded: the transactions have no local commit time, or a task
applies what is left of their intents. -/
structure Loaded (applyTime : ι → Option HybridTime) (w : ParticipantSystem ι) : Prop where
  noQueues : w.participant.immediateCleanupQueue = [] ∧ w.participant.removeQueue = []
  noTasks : w.participant.removeIntentsTasks = []
  noCalls : ∀ id, w.applyCalls id = none
  committed : ∀ id, id ∈ w.committed ↔ w.applyTasks id = some .running
  isSome : ∀ id ∈ w.committed, (applyTime id).isSome = true
  processed : w.processed = w.committed
  applyTasks : ∀ id task, w.applyTasks id = some task → task = .running
  commitTimes : ∀ id, id ∈ w.committed ↔ ∃ t, w.participant.commitTimes id = some (some t)
  safeTime : w.context.safeTime.isValid →
    ∀ id, ∀ t ∈ applyTime id, t ≤ w.context.safeTime → id ∈ w.processed

omit [DecidableEq ι] in
/-- The invariant holds when the transactions are loaded. -/
lemma Loaded.cleanupInv (h : Loaded applyTime w) : CleanupInv applyTime w where
  kept id hid _ := (h.commitTimes id).1 hid
  removed id hid := by simp [h.noTasks] at hid
  committed id hid := ⟨h.processed ▸ hid, Option.isSome_iff_ne_none.1 (h.isSome id hid)⟩
  processed id hid hnone := by
    obtain ⟨t, ht⟩ := (h.commitTimes id).1 (h.processed ▸ hid)
    simp [hnone] at ht
  commitTime id t ht := (h.commitTimes id).2 ⟨t, ht⟩
  immediate e he := by simp [h.noQueues.1] at he
  removeQueue e he := by simp [h.noQueues.2] at he
  safeTime := h.safeTime
  calls id hid := by simp [h.noCalls] at hid
  tasks id hid := by
    rcases hid with hid | hid <;> exact absurd (h.applyTasks id _ hid) (by simp)

/-- Every event keeps the invariant, if graceful cleanups come after the apply. -/
lemma CleanupInv.step {e : Event ι} (h : CleanupInv applyTime w) (hadm : Admissible applyTime w e)
    (hgrac : GracefulCleanupAfterApply w e) (hstep : w.Step e w') : CleanupInv applyTime w' := by
  cases e with
  | clock context =>
    cases hstep
    exact { h with safeTime := hadm }
  | add id =>
    cases hstep
    exact h.add hadm.1 hadm.2
  | registerRequest | nextRequestId =>
    cases hstep
    exact { h with }
  | unregisterRequest request =>
    simp only [Step, ParticipantSystem.step] at hstep
    split_ifs at hstep
    cases hstep
    exact h.unregisterRequest request hgrac
  | processApply id commitHt =>
    cases hstep
    exact h.processApply hadm commitHt
  | applyIntents id active =>
    simp only [Step, ParticipantSystem.step] at hstep
    split_ifs at hstep
    cases hstep
    -- the intents are applied in the call that processes the record
    refine h.intentsApplied active (fun id' hid' => ?_) fun id' hid' => .inl hid'
    rcases update_eq_some_iff.1 hid' with ⟨rfl, hact⟩ | ⟨-, hid'⟩
    · exact .inr ⟨rfl, by simpa using hact⟩
    · exact .inl hid'
  | updateAppliedTransaction id =>
    simp only [Step, ParticipantSystem.step] at hstep
    split at hstep
    · next active hcall =>
      cases hstep
      exact h.updateAppliedTransaction hcall
    · cases hstep
  | taskApplyIntents id active =>
    simp only [Step, ParticipantSystem.step] at hstep
    split_ifs at hstep
    cases hstep
    -- the intents are applied by a task
    refine h.intentsApplied active (fun id' hid' => .inl hid') fun id' hid' => ?_
    by_cases heq : id' = id
    · subst heq
      exact .inr ⟨rfl, by simpa using hid'⟩
    · exact .inl (by simpa [heq] using hid')
  | taskSetApplyData id =>
    simp only [Step, ParticipantSystem.step] at hstep
    split at hstep
    · next active htask =>
      cases hstep
      exact h.taskSetApplyData htask
    · cases hstep
  | taskRemove id =>
    simp only [Step, ParticipantSystem.step] at hstep
    split_ifs at hstep with htask
    cases hstep
    exact h.taskRemove htask
  | statusReceived id status timeOfStatus =>
    cases hstep
    exact h.statusReceived hadm
  | abortReceived id result =>
    cases hstep
    exact h.abortReceived hadm
  | enqueueRemove id =>
    cases hstep
    exact h.enqueueRemove hadm
  | cleanup id cleanupType =>
    cases hstep
    refine h.cleanup ?_
    rintro rfl
    exact hadm
  | poll =>
    cases hstep
    exact h.of_cleans h.poll

/-- In every run of a participant in which an entry of the graceful cleanup queue never becomes
ready for a transaction that is being applied, a transaction with a local commit time stays until
all its intents have been applied. -/
theorem not_cleaned_up_early {es : List (Event ι)} (hloaded : Loaded applyTime w)
    (hrun : Run (Restrict GracefulCleanupAfterApply (EnvStep applyTime)) w es w') :
    NotCleanedUpEarly w' := by
  have hinv : CleanupInv applyTime w' :=
    hrun.invariant (fun _ _ _ hinv hstep => hinv.step hstep.2.1 hstep.1 hstep.2.2)
      hloaded.cleanupInv
  exact hinv.notCleanedUpEarly

/-! ## Runs of a participant with one transaction -/

namespace Example

/-- A participant without transactions. -/
def start : ParticipantSystem (Fin 1) where
  participant := { cleanupCache := ⟨64, []⟩ }

/-- The transaction is applied at 8. -/
def applyTimes : Fin 1 → Option HybridTime := fun _ => some 8

lemma loaded_start : Loaded applyTimes start where
  noQueues := ⟨rfl, rfl⟩
  noTasks := rfl
  noCalls _ := rfl
  committed := by simp [start]
  isSome := by simp [start]
  processed := rfl
  applyTasks := by simp [start]
  commitTimes := by simp [start, commitTimes]
  safeTime := by simp [start, applyTimes, kMin]

instance (w : ParticipantSystem (Fin 1)) (id : Fin 1) : Decidable (MaySayAborted applyTimes w id) :=
  inferInstanceAs (Decidable (∀ t ∈ applyTimes id, t ≤ w.context.now))

instance (w : ParticipantSystem (Fin 1)) (e : Event (Fin 1)) :
    Decidable (Admissible applyTimes w e) := by
  cases e with
  | cleanup id cleanupType => cases cleanupType <;> (unfold Admissible; infer_instance)
  | _ => unfold Admissible; infer_instance

instance (w : ParticipantSystem (Fin 1)) (e : Event (Fin 1)) :
    Decidable (GracefulCleanupAfterApply w e) := by
  cases e <;> (unfold GracefulCleanupAfterApply; infer_instance)

/-- A large transaction for which there is a graceful cleanup request at `cleanupTime`, before it is
applied. A request ends while the intents are applied, when the safe time is `safeTime`. -/
def applyAfterCleanup (cleanupTime safeTime : HybridTime) : List (Event (Fin 1)) :=
  [.add 0, .registerRequest, .clock ⟨cleanupTime, 5, 0⟩, .cleanup 0 .graceful, .processApply 0 7,
    .applyIntents 0 true, .updateAppliedTransaction 0, .clock ⟨40, safeTime, 0⟩, .enqueueRemove 0,
    .unregisterRequest 1]

/-- Whether the transaction is still there, with what has happened to it. -/
def summary (w : ParticipantSystem (Fin 1)) : Bool × List (Fin 1) × List (Fin 1) × List (Fin 1) :=
  ((w.participant.transactions 0).isSome, w.committed, w.applied, w.participant.removeIntentsTasks)

end Example

open Example in
/-- The graceful cleanup request is at 30 and the safe time is 20 when the request ends. -/
theorem not_cleaned_up_early_at_20 : ∃ w' : ParticipantSystem (Fin 1),
    Run (Restrict GracefulCleanupAfterApply (EnvStep applyTimes)) start
      (applyAfterCleanup 30 20) w' ∧
      w'.committed = [0] ∧ w'.applied = [] ∧ NotCleanedUpEarly w' := by
  have hexec :
      (Run.exec (restrict GracefulCleanupAfterApply (restrict (Admissible applyTimes) step)) start
      (applyAfterCleanup 30 20)).map summary = some (true, [0], [], []) := by decide +kernel
  obtain ⟨w', hw', hsum⟩ := Option.map_eq_some_iff.1 hexec
  have hrun : Run (Restrict GracefulCleanupAfterApply (EnvStep applyTimes)) start
      (applyAfterCleanup 30 20) w' := by
    refine (Run.of_exec_restrict hw').mono ?_
    rintro s e s' ⟨hgrac, hstep⟩
    simp only [restrict] at hstep
    split_ifs at hstep with hadm
    exact ⟨hgrac, hadm, hstep⟩
  simp only [summary, Prod.mk.injEq] at hsum
  exact ⟨w', hrun, hsum.2.1, hsum.2.2.1, not_cleaned_up_early loaded_start hrun⟩

open Example in
/-- The graceful cleanup request is at 10 and the safe time is 20 when the request ends: the
transaction is taken out and its intents are to be removed, while they are being applied. -/
theorem cleaned_up_early_at_20 : ∃ w' : ParticipantSystem (Fin 1),
    Loaded applyTimes start ∧ Run (EnvStep applyTimes) start (applyAfterCleanup 10 20) w' ∧
      ¬NotCleanedUpEarly w' := by
  have hexec :
      (Run.exec (restrict (Admissible applyTimes) step) start (applyAfterCleanup 10 20)).map
      summary = some (false, [0], [], [0]) := by decide +kernel
  obtain ⟨w', hw', hsum⟩ := Option.map_eq_some_iff.1 hexec
  simp only [summary, Prod.mk.injEq] at hsum
  refine ⟨w', loaded_start, Run.of_exec_restrict hw', fun h => ?_⟩
  have htask := (h 0 (by simp [hsum.2.1]) (by simp [hsum.2.2.1])).2
  simp [hsum.2.2.2] at htask

end ParticipantSystem
