import ZNbase.Common.HybridTime
import Mathlib.Data.List.Dedup

/-!
# The transaction coordinator

`TransactionState` and `TransactionCoordinator::Impl` of `tablet/transaction_coordinator.cc`, for
transactions that are not sealed. The coordinator of a status tablet keeps the state of the
transactions it manages. It changes a status by replicating a record for it, one record of a
transaction at a time; requests that come in the meantime are queued.

- A call runs under `managed_mutex_` and is one function. What it does after it has released the
  mutex is collected in `PostponedLeaderActions`.
- A request has a number, which stands for its address. New requests take the next number.
- A reading of the clock is an argument `now`. `timeout` is `GetTransactionTimeout`.
- A log line is left out, also where it is `DFATAL`: the model is of a release build.
- Left out as well: sealing, the `APPLYING` messages to the involved tablets with their answers (a
  tablet that was deleted or split), completion callbacks of requests, and
  `first_entry_raft_index_`.
-/

open Function HybridTime

/-- `TransactionStatus`, as far as records and requests of transactions that are not sealed have
it. -/
inductive TransactionStatus
  | created
  | pending
  | committed
  | aborted
  | appliedInOneOfInvolvedTablets
  | appliedInAllInvolvedTablets
  deriving DecidableEq

/-- `TransactionStatePB`. -/
structure TransactionStatePB (ι τ : Type) where
  transactionId : ι
  status : TransactionStatus
  tablets : List τ := []
  deriving DecidableEq

/-- `UpdateTxnOperationState`: a request, by its number. -/
structure UpdateTxnOperationState (ι τ : Type) where
  number : ℕ
  request : TransactionStatePB ι τ
  deriving DecidableEq

/-- `TransactionStatusResult`. -/
structure TransactionStatusResult where
  status : TransactionStatus
  statusTime : HybridTime
  deriving DecidableEq

/-- `TransactionStatusResult::Aborted`. -/
def TransactionStatusResult.aborted : TransactionStatusResult := ⟨.aborted, kInvalid⟩

/-- An answer about a transaction, by `GetStatus` or by the callback of `Abort`; `none` for an
error. -/
structure StatusAnswer (ι : Type) where
  transactionId : ι
  result : Option TransactionStatusResult
  deriving DecidableEq

/-- `PostponedLeaderActions`, with the answers to callers of `Abort` and the next free number. -/
structure PostponedLeaderActions (ι τ : Type) where
  /-- `none` for `OpId::kUnknownTerm`. -/
  leaderTerm : Option ℕ
  updates : List (UpdateTxnOperationState ι τ) := []
  answers : List (StatusAnswer ι) := []
  nextNumber : ℕ

namespace PostponedLeaderActions

variable {ι τ : Type}

def leader (acts : PostponedLeaderActions ι τ) : Bool := acts.leaderTerm.isSome

end PostponedLeaderActions

/-- `TransactionState`. The callbacks in `abort_waiters_` are counted only. -/
structure TransactionState (ι τ : Type) where
  id : ι
  status : TransactionStatus := .pending
  lastTouch : HybridTime
  commitTime : HybridTime := kInvalid
  /-- With `all_intents_applied`. -/
  involvedTablets : List (τ × Bool) := []
  tabletsWithNotAppliedIntents : ℕ := 0
  replicating : Option (UpdateTxnOperationState ι τ) := none
  requestQueue : List (UpdateTxnOperationState ι τ) := []
  abortWaiters : ℕ := 0
  deriving DecidableEq

namespace TransactionState

variable {ι τ : Type} [DecidableEq τ]

/-! ## What a transaction is about to be -/

variable (s : TransactionState ι τ)

/-- `ShouldBeInStatus`: the transaction has the status, or will have it when what is replicated and
what is queued is done. -/
def shouldBeInStatus (status : TransactionStatus) : Bool :=
  s.status = status ||
    match s.replicating with
    | some r => r.request.status = status || s.requestQueue.any (·.request.status = status)
    | none => false

def shouldBeCommitted : Bool :=
  s.shouldBeInStatus .committed || s.shouldBeInStatus .appliedInAllInvolvedTablets

def shouldBeAborted : Bool := s.shouldBeInStatus .aborted

variable (timeout : ℤ)

def expiredAt (s : TransactionState ι τ) (now : HybridTime) : Bool :=
  if s.shouldBeCommitted then false
  else decide (timeout < (getPhysicalValueMicros now : ℤ) - getPhysicalValueMicros s.lastTouch)

def completed : Bool :=
  s.status = .aborted || s.status = .appliedInAllInvolvedTablets

/-! ## Requests -/

/-- `NotifyAbortWaiters`. -/
def notifyAbortWaiters (result : Option TransactionStatusResult)
    (acts : PostponedLeaderActions ι τ) : TransactionState ι τ × PostponedLeaderActions ι τ :=
  ({ s with abortWaiters := 0 },
    { acts with answers := acts.answers ++ List.replicate s.abortWaiters ⟨s.id, result⟩ })

variable (acts : PostponedLeaderActions ι τ)

/-- `ClearRequests`. -/
def clearRequests :
    TransactionState ι τ × PostponedLeaderActions ι τ :=
  { s with replicating := none, requestQueue := [] }.notifyAbortWaiters none acts

/-- `SubmitUpdateStatus`. -/
def submitUpdateStatus (status : TransactionStatus)
    (acts : PostponedLeaderActions ι τ) : TransactionState ι τ × PostponedLeaderActions ι τ :=
  let request : UpdateTxnOperationState ι τ := ⟨acts.nextNumber, { transactionId := s.id, status }⟩
  let acts := { acts with nextNumber := acts.nextNumber + 1 }
  if s.replicating.isSome then ({ s with requestQueue := s.requestQueue ++ [request] }, acts)
  else if acts.leader then
    ({ s with replicating := some request }, { acts with updates := acts.updates ++ [request] })
  else (s, acts)

/-- `Abort` of the coordinator itself. -/
def abort :
    TransactionState ι τ × PostponedLeaderActions ι τ :=
  if s.shouldBeCommitted then (s, acts)
  else if s.shouldBeAborted then (s, acts)
  else if s.status ≠ .pending then (s, acts)
  else s.submitUpdateStatus .aborted acts

/-- `HandleCommit`, with whether the commit can go on. -/
def handleCommit (s : TransactionState ι τ) (now : HybridTime)
    (acts : PostponedLeaderActions ι τ) :
    Bool × TransactionState ι τ × PostponedLeaderActions ι τ :=
  if s.expiredAt timeout now then (false, s.abort acts)
  else (decide (s.status = .pending), s, acts)

/-- `DoHandle`. It is called on the leader only, where a request can be submitted. -/
def doHandle (s : TransactionState ι τ) (now : HybridTime)
    (request : UpdateTxnOperationState ι τ) (acts : PostponedLeaderActions ι τ) :
    TransactionState ι τ × PostponedLeaderActions ι τ :=
  let (ok, s, acts) : Bool × TransactionState ι τ × PostponedLeaderActions ι τ :=
    match request.request.status with
    | .committed => s.handleCommit timeout now acts
    | .pending => (decide (s.status = .pending), s, acts)
    | _ => (true, s, acts)
  if ok then
    ({ s with replicating := some request }, { acts with updates := acts.updates ++ [request] })
  else (s, acts)

/-- `ProcessQueue`, over the requests of the queue. -/
def processQueue (timeout : ℤ) (now : HybridTime) :
    List (UpdateTxnOperationState ι τ) → TransactionState ι τ → PostponedLeaderActions ι τ →
      TransactionState ι τ × PostponedLeaderActions ι τ
  | [], s, acts => ({ s with requestQueue := [] }, acts)
  | request :: queue, s, acts =>
    if s.replicating.isSome then ({ s with requestQueue := request :: queue }, acts)
    else
      let (s, acts) := { s with requestQueue := queue }.doHandle timeout now request acts
      processQueue timeout now queue s acts

/-- `AppliedInOneOfInvolvedTablets`. -/
def appliedInOneOfInvolvedTablets (tablets : List τ)
    (acts : PostponedLeaderActions ι τ) : TransactionState ι τ × PostponedLeaderActions ι τ :=
  if s.status ≠ .committed then (s, acts)
  else
    match tablets with
    | [tablet] =>
      if (tablet, false) ∈ s.involvedTablets then
        let s := { s with
          tabletsWithNotAppliedIntents := s.tabletsWithNotAppliedIntents - 1
          involvedTablets := s.involvedTablets.map fun x =>
            if x.1 = tablet then (x.1, true) else x }
        if s.tabletsWithNotAppliedIntents = 0 then
          s.submitUpdateStatus .appliedInAllInvolvedTablets acts
        else (s, acts)
      else (s, acts)
    | _ => (s, acts)

/-- `Handle`. -/
def handle (s : TransactionState ι τ) (now : HybridTime)
    (request : UpdateTxnOperationState ι τ) (acts : PostponedLeaderActions ι τ) :
    TransactionState ι τ × PostponedLeaderActions ι τ :=
  if request.request.status = .appliedInOneOfInvolvedTablets then
    s.appliedInOneOfInvolvedTablets request.request.tablets acts
  else if s.replicating.isSome then
    ({ s with requestQueue := s.requestQueue ++ [request] }, acts)
  else s.doHandle timeout now request acts

/-- `Poll`, without the `APPLYING` messages that it sends again. -/
def poll :
    TransactionState ι τ × PostponedLeaderActions ι τ :=
  if s.status ≠ .committed then (s, acts)
  else if s.tabletsWithNotAppliedIntents = 0 ∧ acts.leader ∧
      ¬s.shouldBeInStatus .appliedInAllInvolvedTablets then
    s.submitUpdateStatus .appliedInAllInvolvedTablets acts
  else (s, acts)

/-! ## Answers -/

/-- `GetStatus`; `none` for `Corruption`. `hybridTime` gives the hybrid times of requests, which are
invalid until the request is appended, and `lease` is `HtLeaseExpiration`. -/
def getStatus (now lease : HybridTime)
    (hybridTime : UpdateTxnOperationState ι τ → HybridTime) : Option TransactionStatusResult :=
  match s.status with
  | .committed | .appliedInAllInvolvedTablets => some ⟨.committed, s.commitTime⟩
  | .aborted => some ⟨.aborted, kMax⟩
  | .pending =>
    let statusHt :=
      match s.replicating with
      | some r =>
        if (r.request.status = .committed ∨ r.request.status = .aborted) ∧
            isValid (hybridTime r) then hybridTime r
        else now
      | none => now
    some ⟨.pending, decremented (min statusHt lease)⟩
  | .created | .appliedInOneOfInvolvedTablets => none

/-- `Abort` on a request from outside. There is no result for now if the caller has to wait. -/
def abortRequested :
    Option TransactionStatusResult × TransactionState ι τ × PostponedLeaderActions ι τ :=
  if s.status = .committed ∨ s.status = .appliedInAllInvolvedTablets then
    (some ⟨.committed, s.commitTime⟩, s, acts)
  else if s.shouldBeCommitted then (some ⟨.committed, kMax⟩, s, acts)
  else if s.status = .aborted then (some .aborted, s, acts)
  else (none, { s with abortWaiters := s.abortWaiters + 1 }.abort acts)

/-! ## Replicated records -/

/-- `AbortedReplicationFinished`. -/
def abortedReplicationFinished :
    TransactionState ι τ × PostponedLeaderActions ι τ :=
  { s with status := .aborted }.notifyAbortWaiters (some .aborted) acts

/-- `CommittedReplicationFinished`, with `StartApply`. A tablet that is listed twice is kept
once. -/
def committedReplicationFinished (tablets : List τ)
    (hybridTime : HybridTime) (acts : PostponedLeaderActions ι τ) :
    TransactionState ι τ × PostponedLeaderActions ι τ :=
  if s.status ≠ .pending then (s, acts)
  else
    let involvedTablets := tablets.dedup.map fun tablet => (tablet, false)
    { s with
      lastTouch := hybridTime
      commitTime := hybridTime
      involvedTablets
      status := .committed
      tabletsWithNotAppliedIntents := involvedTablets.length }.notifyAbortWaiters
        (some ⟨.committed, hybridTime⟩) acts

/-- `PendingReplicationFinished`. -/
def pendingReplicationFinished (s : TransactionState ι τ) (hybridTime : HybridTime)
    (acts : PostponedLeaderActions ι τ) : TransactionState ι τ × PostponedLeaderActions ι τ :=
  if acts.leader ∧ s.expiredAt timeout hybridTime then s.abort acts
  else if s.status ≠ .pending then (s, acts)
  else ({ s with lastTouch := hybridTime }, acts)

/-- `DoProcessReplicated`. A record never has the status `appliedInOneOfInvolvedTablets`. -/
def doProcessReplicated (s : TransactionState ι τ) (record : TransactionStatePB ι τ)
    (hybridTime : HybridTime) (acts : PostponedLeaderActions ι τ) :
    TransactionState ι τ × PostponedLeaderActions ι τ :=
  match record.status with
  | .aborted => s.abortedReplicationFinished acts
  | .committed => s.committedReplicationFinished record.tablets hybridTime acts
  | .created | .pending => s.pendingReplicationFinished timeout hybridTime acts
  | .appliedInAllInvolvedTablets =>
    ({ s with lastTouch := hybridTime, status := .appliedInAllInvolvedTablets }, acts)
  | .appliedInOneOfInvolvedTablets => (s, acts)

/-- `ProcessReplicated`. Whatever was replicating is not any more. -/
def processReplicated (s : TransactionState ι τ) (now : HybridTime)
    (record : TransactionStatePB ι τ) (hybridTime : HybridTime)
    (acts : PostponedLeaderActions ι τ) : TransactionState ι τ × PostponedLeaderActions ι τ :=
  let (s, acts) := { s with replicating := none }.doProcessReplicated timeout record hybridTime acts
  if !acts.leader || s.completed then s.clearRequests acts
  else processQueue timeout now s.requestQueue s acts

/-- `ProcessAborted`. The request that failed is not compared with the one that is replicating. -/
def processAborted :
    TransactionState ι τ × PostponedLeaderActions ι τ :=
  { s with replicating := none }.clearRequests acts

end TransactionState

/-- `managed_transactions_`. -/
abbrev ManagedTransactions (ι τ : Type) := ι → Option (TransactionState ι τ)

namespace ManagedTransactions

variable {ι τ : Type} [DecidableEq ι] [DecidableEq τ]

variable (m : ManagedTransactions ι τ)

/-- `GetTransaction`. -/
def getTransaction (id : ι) (status : TransactionStatus)
    (hybridTime : HybridTime) : Option (TransactionState ι τ) :=
  match m id with
  | some s => some s
  | none =>
    if status ≠ .appliedInAllInvolvedTablets then some { id, lastTouch := hybridTime } else none

/-- Puts back a transaction, after `CheckCompleted`. -/
def checkCompleted
    (r : TransactionState ι τ × PostponedLeaderActions ι τ) :
    ManagedTransactions ι τ × PostponedLeaderActions ι τ :=
  if r.1.completed then (update m r.1.id none, (r.1.clearRequests r.2).2)
  else (update m r.1.id (some r.1), r.2)

/-- `Impl::ProcessReplicated`. -/
def processReplicated (timeout : ℤ) (m : ManagedTransactions ι τ) (now : HybridTime)
    (record : TransactionStatePB ι τ) (hybridTime : HybridTime)
    (acts : PostponedLeaderActions ι τ) : ManagedTransactions ι τ × PostponedLeaderActions ι τ :=
  match m.getTransaction record.transactionId record.status hybridTime with
  | some s => m.checkCompleted (s.processReplicated timeout now record hybridTime acts)
  | none => (m, acts)

/-- `Impl::ProcessAborted`. -/
def processAborted (record : TransactionStatePB ι τ)
    (acts : PostponedLeaderActions ι τ) : ManagedTransactions ι τ × PostponedLeaderActions ι τ :=
  match m record.transactionId with
  | some s => m.checkCompleted (s.processAborted acts)
  | none => (m, acts)

/-- `Impl::Handle`. -/
def handle (timeout : ℤ) (m : ManagedTransactions ι τ) (now : HybridTime)
    (request : UpdateTxnOperationState ι τ) (acts : PostponedLeaderActions ι τ) :
    ManagedTransactions ι τ × PostponedLeaderActions ι τ :=
  let id := request.request.transactionId
  match m id with
  | some s =>
    let (s, acts) := s.handle timeout now request acts
    (update m id (some s), acts)
  | none =>
    if request.request.status = .created then
      let (s, acts) :=
        { id, lastTouch := now : TransactionState ι τ }.handle timeout now request acts
      (update m id (some s), acts)
    else (m, acts)

/-- `Impl::Abort`. -/
def abort (id : ι) (acts : PostponedLeaderActions ι τ) :
    ManagedTransactions ι τ × PostponedLeaderActions ι τ :=
  match m id with
  | some s =>
    let (result, s, acts) := s.abortRequested acts
    (update m id (some s),
      match result with
      | some _ => { acts with answers := acts.answers ++ [⟨id, result⟩] }
      | none => acts)
  | none => (m, { acts with answers := acts.answers ++ [⟨id, some .aborted⟩] })

/-- `Impl::GetStatus`. -/
def getStatus (now lease : HybridTime)
    (hybridTime : UpdateTxnOperationState ι τ → HybridTime) (ids : List ι) :
    List (StatusAnswer ι) :=
  ids.map fun id =>
    match m id with
    | some s => ⟨id, s.getStatus now lease hybridTime⟩
    | none => ⟨id, some ⟨.aborted, kMax⟩⟩

/-- The first loop of `Impl::Poll`, over transactions in the order of their last touch: it aborts
those that have expired, up to the first one that has not. -/
def abortExpired (timeout : ℤ) (now : HybridTime) :
    List ι → ManagedTransactions ι τ → PostponedLeaderActions ι τ →
      ManagedTransactions ι τ × PostponedLeaderActions ι τ
  | [], m, acts => (m, acts)
  | id :: ids, m, acts =>
    match m id with
    | some s =>
      if s.expiredAt timeout now then
        if s.status = .aborted then abortExpired timeout now ids (update m id none) acts
        else
          let (s, acts) := s.abort acts
          abortExpired timeout now ids (update m id (some s)) acts
      else (m, acts)
    | none => abortExpired timeout now ids m acts

/-- The second loop of `Impl::Poll`. -/
def pollAll : List ι → ManagedTransactions ι τ → PostponedLeaderActions ι τ →
    ManagedTransactions ι τ × PostponedLeaderActions ι τ
  | [], m, acts => (m, acts)
  | id :: ids, m, acts =>
    match m id with
    | some s =>
      let (s, acts) := s.poll acts
      pollAll ids (update m id (some s)) acts
    | none => pollAll ids m acts

/-- `Impl::Poll`. `ids` are the managed transactions, in the order of their last touch. -/
def poll (timeout : ℤ) (m : ManagedTransactions ι τ) (now : HybridTime) (ids : List ι)
    (acts : PostponedLeaderActions ι τ) : ManagedTransactions ι τ × PostponedLeaderActions ι τ :=
  let (m, acts) := abortExpired timeout now ids m acts
  pollAll ids m acts

end ManagedTransactions
