import ZNbase.Common.HybridTime
import ZNbase.Lib.Except

/-!
# Conflict resolution

`ConflictResolver` of `docdb/conflict_resolution.cc`, with `TransactionConflictResolverContext` and
`OperationConflictResolverContext`. A transaction or an operation that is about to write has found
the transactions with which it conflicts. The resolver asks for their statuses, drops those that are
not in the way any more, aborts the rest if its priority allows it, and begins again with what is
left after that. When no conflicts are left, or when something is wrong, it calls back.

- A round ends with the last one of its replies, in whatever order they come; what follows runs up
  to the next round (`Event`).
- What the transaction participant is asked for in the meantime is given with the event
  (`StatusManager`).
- Left out: how conflicts are found (`ReadConflicts`), and the metrics.
-/

open HybridTime

/-- `TransactionStatus`, as a reply can have it. -/
inductive ReplyStatus
  | created
  | pending
  | committed
  | sealed
  | appliedInAllInvolvedTablets
  | aborted
  | applying
  | appliedInOneOfInvolvedTablets
  | immediateCleanup
  | gracefulCleanup
  deriving DecidableEq

/-- `TransactionStatusResult`, as a reply can have it. -/
structure ReplyResult where
  status : ReplyStatus
  statusTime : HybridTime
  deriving DecidableEq

/-- What kind of error a `Status` is. -/
inductive ReplyCode
  | tryAgain
  | notFound
  | remoteError
  | aborted
  | other
  deriving DecidableEq

/-- A reply to a status request or to an abort. -/
abbrev Reply := Except ReplyCode ReplyResult

/-- Why conflicts cannot be resolved. -/
inductive ResolutionError (ι : Type)
  /-- An error of `ReadConflicts`. -/
  | readConflicts (code : ReplyCode)
  /-- The error of a reply. -/
  | failure (code : ReplyCode)
  /-- "Invalid transaction commit time". -/
  | invalidCommitTime
  /-- "$0 Conflicts with committed transaction: $1". -/
  | committed (other : ι)
  /-- "$0 Conflicts with higher priority transaction: $1". -/
  | higherPriority (other : ι)
  /-- "Unexpected transaction state: $0". -/
  | unexpectedState (status : ReplyStatus)
  deriving DecidableEq

/-- `TransactionData`. The status is not read before there was a reply. -/
structure TransactionData (ι : Type) where
  id : ι
  status : ReplyStatus := .created
  commitTime : HybridTime := kInvalid
  priority : ℕ := 0
  failure : Option ReplyCode := none
  deriving DecidableEq

/-- `ProcessStatus`. -/
def TransactionData.processStatus {ι : Type} (transaction : TransactionData ι)
    (result : ReplyResult) :
    TransactionData ι :=
  let transaction := { transaction with status := result.status }
  if result.status = .committed then { transaction with commitTime := result.statusTime }
    else transaction

/-- `kHighPriTxnLowerBound`. -/
def kHighPriTxnLowerBound : ℕ := (2 ^ 64 - 1) - (2 ^ 32 - 1)

/-- What the transaction participant answers. -/
structure StatusManager (ι : Type) where
  /-- `LocalCommitTime`. -/
  localCommitTime : ι → HybridTime
  /-- `FillPriorities`. -/
  priority : ι → ℕ

/-- For what conflicts are resolved. -/
inductive ConflictResolverContext
  /-- `TransactionConflictResolverContext`. -/
  | transaction (readTime : HybridTime) (priority : ℕ)
  /-- `OperationConflictResolverContext`. -/
  | operation
  deriving DecidableEq

namespace ConflictResolverContext

variable {ι : Type}

/-- `CheckConflictWithCommitted`: whether a transaction that has committed is not in the way, and
the resolution time. -/
def checkConflictWithCommitted (context : ConflictResolverContext) (id : ι)
    (commitTime resolutionHt : HybridTime) : Except (ResolutionError ι) (Bool × HybridTime) :=
  match context with
  | .transaction readTime _ =>
    if ¬isValid commitTime then .error .invalidCommitTime
    else if readTime ≤ commitTime then .error (.committed id)
    else .ok (true, resolutionHt)
  | .operation =>
    if commitTime ≠ kMax then .ok (true, makeAtLeast resolutionHt commitTime)
    else .ok (false, resolutionHt)

/-- `our_priority` of `CheckPriorityInternal`. -/
def ourPriority : ConflictResolverContext → ℕ
  | .transaction _ priority => priority
  | .operation => kHighPriTxnLowerBound - 1

end ConflictResolverContext

/-- What the resolver waits for. -/
inductive ResolverPhase
  /-- `Resolve` has not been called. -/
  | created
  /-- Replies to `FetchTransactionStatuses`. -/
  | fetching
  /-- Replies to `AbortTransactions`. -/
  | aborting
  deriving DecidableEq

/-- `ConflictResolver`, with its context. -/
structure ConflictResolver (ι : Type) where
  context : ConflictResolverContext
  /-- `resolution_ht_` of the context. -/
  resolutionHt : HybridTime
  /-- `fetched_metadata_for_transactions_` of the context. -/
  fetchedMetadata : Bool := false
  transactions : List (TransactionData ι) := []
  phase : ResolverPhase := .created
  /-- The transactions without a reply in this round; `pending_requests_` is their number. -/
  pending : List ι := []
  /-- With what the callback was called, so far. -/
  callbacks : List (Except (ResolutionError ι) HybridTime) := []

namespace ConflictResolver

variable {ι : Type}

/-- The loop over `transactions_` that keeps those which `erase` does not say can be erased. -/
def eraseTransactions
    (erase : TransactionData ι → HybridTime → Except (ResolutionError ι) (Bool × HybridTime)) :
    List (TransactionData ι) → HybridTime →
      Except (ResolutionError ι) (List (TransactionData ι) × HybridTime)
  | [], resolutionHt => .ok ([], resolutionHt)
  | transaction :: transactions, resolutionHt => do
    let (allowErase, resolutionHt) ← erase transaction resolutionHt
    let (rest, resolutionHt) ← eraseTransactions erase transactions resolutionHt
    return (if allowErase then rest else transaction :: rest, resolutionHt)

variable (manager : StatusManager ι)

/-- What `CheckLocalCommits` does with a transaction. -/
def checkLocalCommit (context : ConflictResolverContext)
    (transaction : TransactionData ι) (resolutionHt : HybridTime) :
    Except (ResolutionError ι) (Bool × HybridTime) :=
  let commitTime := manager.localCommitTime transaction.id
  if isValid commitTime then
    context.checkConflictWithCommitted transaction.id commitTime resolutionHt
  else .ok (false, resolutionHt)

/-- What `Cleanup` does with a transaction. -/
def cleanupTransaction (context : ConflictResolverContext)
    (transaction : TransactionData ι) (resolutionHt : HybridTime) :
    Except (ResolutionError ι) (Bool × HybridTime) :=
  match transaction.failure with
  | some code => .error (.failure code)
  | none =>
    match transaction.status with
    | .committed =>
      context.checkConflictWithCommitted transaction.id transaction.commitTime resolutionHt
    | .aborted =>
      let commitTime := manager.localCommitTime transaction.id
      if isValid commitTime then
        context.checkConflictWithCommitted transaction.id commitTime resolutionHt
      else .ok (true, resolutionHt)
    | .pending | .applying => .ok (false, resolutionHt)
    | status => .error (.unexpectedState status)

variable (s : ConflictResolver ι)

/-- `InvokeCallback`. -/
def invokeCallback (result : Except (ResolutionError ι) HybridTime) :
    ConflictResolver ι :=
  { s with callbacks := s.callbacks ++ [result] }

/-- `CheckResolutionDone`, for what is left after a loop over the transactions: the resolver goes on
if there is something left. -/
def checkResolutionDone
    (result : Except (ResolutionError ι) (List (TransactionData ι) × HybridTime))
    (goOn : ConflictResolver ι → ConflictResolver ι) : ConflictResolver ι :=
  match result with
  | .error e => s.invokeCallback (.error e)
  | .ok (transactions, resolutionHt) =>
    let s := { s with transactions, resolutionHt }
    if transactions = [] then s.invokeCallback (.ok resolutionHt) else goOn s

/-- `FetchTransactionStatuses` or `AbortTransactions`: every transaction is asked for. -/
def startRound (phase : ResolverPhase) (s : ConflictResolver ι) : ConflictResolver ι :=
  { s with phase, pending := s.transactions.map (·.id) }

/-- `DoResolveConflicts`. -/
def doResolveConflicts : ConflictResolver ι :=
  s.checkResolutionDone
    (eraseTransactions (checkLocalCommit manager s.context) s.transactions s.resolutionHt)
    (startRound .fetching)

/-- `Cleanup`, with what is left. -/
def cleanup :
    Except (ResolutionError ι) (List (TransactionData ι) × HybridTime) :=
  eraseTransactions (cleanupTransaction manager s.context) s.transactions s.resolutionHt

/-- `CheckPriorityInternal`: the priorities are asked for once. -/
def checkPriority :
    Except (ResolutionError ι) (ConflictResolver ι) :=
  let transactions :=
    if s.fetchedMetadata then s.transactions
    else s.transactions.map fun transaction =>
      { transaction with priority := manager.priority transaction.id }
  match transactions.find? fun transaction => s.context.ourPriority < transaction.priority with
  | some transaction => .error (.higherPriority transaction.id)
  | none => .ok { s with transactions, fetchedMetadata := true }

/-- `FetchTransactionStatusesDone`. -/
def fetchTransactionStatusesDone :
    ConflictResolver ι :=
  s.checkResolutionDone (s.cleanup manager) fun s =>
    match s.checkPriority manager with
    | .error e => s.invokeCallback (.error e)
    | .ok s => s.startRound .aborting

/-- `AbortTransactionsDone`. -/
def abortTransactionsDone : ConflictResolver ι :=
  s.checkResolutionDone (s.cleanup manager) (doResolveConflicts manager)

/-- `Resolve`, with the result of `ReadConflicts`. -/
def resolve (conflicts : Except ReplyCode (List ι))
    (s : ConflictResolver ι) : ConflictResolver ι :=
  match conflicts with
  | .error code => s.invokeCallback (.error (.readConflicts code))
  | .ok [] => s.invokeCallback (.ok s.resolutionHt)
  | .ok conflicts =>
    { s with transactions := conflicts.map fun id => { id } }.doResolveConflicts manager

/-- The callback of a status request. -/
def processStatusReply (reply : Reply) (transaction : TransactionData ι) : TransactionData ι :=
  match reply with
  | .ok result => transaction.processStatus result
  | .error .tryAgain => { transaction with status := .pending }
  | .error .notFound => { transaction with status := .aborted }
  | .error code => { transaction with failure := some code }

/-- The callback of an abort. -/
def processAbortReply (reply : Reply) (transaction : TransactionData ι) : TransactionData ι :=
  match reply with
  | .ok result => transaction.processStatus result
  | .error .remoteError => { transaction with failure := some .remoteError }
  | .error .aborted => { transaction with failure := some .aborted }
  | .error _ => transaction

/-- What happens next. -/
inductive Event (ι : Type)
  | resolve (conflicts : Except ReplyCode (List ι)) (manager : StatusManager ι)
  | statusReply (id : ι) (reply : Reply) (manager : StatusManager ι)
  | abortReply (id : ι) (reply : Reply) (manager : StatusManager ι)

variable [DecidableEq ι]

/-- A reply for a transaction; `done` follows after the last one. -/
def processReply (s : ConflictResolver ι) (id : ι) (process : TransactionData ι → TransactionData ι)
    (done : ConflictResolver ι → ConflictResolver ι) : ConflictResolver ι :=
  let s := { s with
    transactions := s.transactions.map fun transaction =>
      if transaction.id = id then process transaction else transaction
    pending := s.pending.erase id }
  if s.pending = [] then done s else s

/-- What an event does, if it can happen. -/
def step (s : ConflictResolver ι) : Event ι → Option (ConflictResolver ι)
  | .resolve conflicts manager =>
    if s.phase = .created ∧ s.callbacks = [] ∧ ∀ ids ∈ conflicts.toOption, ids.Nodup then
      some (s.resolve manager conflicts)
    else none
  | .statusReply id reply manager =>
    if s.phase = .fetching ∧ id ∈ s.pending then
      some (s.processReply id (processStatusReply reply) (fetchTransactionStatusesDone manager))
    else none
  | .abortReply id reply manager =>
    if s.phase = .aborting ∧ id ∈ s.pending then
      some (s.processReply id (processAbortReply reply) (abortTransactionsDone manager))
    else none

def Step (s : ConflictResolver ι) (e : Event ι) (s' : ConflictResolver ι) : Prop :=
  s.step e = some s'

end ConflictResolver
