import ZNbase.Tablet.TransactionCoordinator
import Mathlib.Data.List.Sort

/-!
# The transaction participant

`TransactionParticipant::Impl` of `tablet/transaction_participant.cc` and `RunningTransaction` of
`tablet/running_transaction.cc`, as far as applying and removing transactions is concerned. The
participant of a tablet keeps the transactions that have intents in the tablet. When the intents of
a transaction are not needed any more, it takes the transaction out of `transactions_` and schedules
a task that removes the intents. There are three queues of transactions that are to be removed:

- the remove queue has transactions that the status tablet says are aborted. It does not have to be
  so: the status tablet forgets a transaction that was applied everywhere. An entry is handled when
  the safe time has passed the time at which the entry was added, unless the transaction has a local
  commit time by then;
- the immediate and the graceful cleanup queue have transactions for which running requests have to
  finish first; an entry of the graceful one also waits for a safe time.

A function runs under `mutex_`. `ProcessApply` and the task that applies the intents of a large
transaction take the mutex several times, so that each of them is several steps (`Event`).

- A reading of a clock or of the safe time is one of the fields of `ParticipantContext`.
- A log line is left out, also where it is `DFATAL`.
- Left out as well: the loader, the waiters of status requests, abort check times, the minimal
  running hybrid time, and the data of a batch.
-/

open Function HybridTime

/-- `RunningTransaction`. -/
structure RunningTransaction where
  /-- `local_commit_time_`; `none` stands for `kInvalid`. -/
  localCommitTime : Option HybridTime := none
  lastKnownStatus : TransactionStatus := .created
  lastKnownStatusHybridTime : HybridTime := kMin
  /-- Whether `apply_state_` is active. -/
  applyActive : Bool := false
  /-- `used_` of `apply_intents_task_`. -/
  applyIntentsTaskUsed : Bool := false
  /-- `used_` of `remove_intents_task_`. -/
  removeIntentsTaskUsed : Bool := false
  deriving DecidableEq

namespace RunningTransaction

variable (txn : RunningTransaction)

/-- `SetLocalCommitTime`. -/
def setLocalCommitTime (time : HybridTime) : RunningTransaction :=
  { txn with
    localCommitTime := some time
    lastKnownStatusHybridTime := time
    lastKnownStatus := .committed }

/-- `UpdateStatus`, with whether the transaction is to be removed. -/
def updateStatus (status : TransactionStatus) (timeOfStatus : HybridTime) :
    Bool × RunningTransaction :=
  if txn.localCommitTime.isSome then (false, txn)
  else
    let txn := { txn with lastKnownStatusHybridTime := timeOfStatus }
    if status = txn.lastKnownStatus then (false, txn)
    else (status = .aborted, { txn with lastKnownStatus := status })

/-- What `AbortReceived` does with a result that is not an error. -/
def abortReceived (result : TransactionStatusResult) :
    Bool × RunningTransaction :=
  if result.statusTime ≠ kMax then
    let txn := { txn with lastKnownStatusHybridTime := result.statusTime }
    if txn.lastKnownStatus ≠ result.status then
      (result.status = .aborted, { txn with lastKnownStatus := result.status })
    else (false, txn)
  else (false, txn)

/-- `ProcessingApply`. -/
def processingApply : Bool := txn.applyActive

end RunningTransaction

/-- `LRUCache`. -/
structure LRUCache (ι : Type) where
  capacity : ℕ
  entries : List ι := []
  deriving DecidableEq

/-- `LRUCache::Insert`. -/
def LRUCache.insert {ι : Type} [DecidableEq ι] (cache : LRUCache ι) (value : ι) : LRUCache ι :=
  { cache with entries := (value :: cache.entries.erase value).take cache.capacity }

/-- `RemoveQueueEntry`. -/
structure RemoveQueueEntry (ι : Type) where
  id : ι
  time : HybridTime
  deriving DecidableEq

/-- `ImmediateCleanupQueueEntry`. -/
structure ImmediateCleanupQueueEntry (ι : Type) where
  requestId : ℕ
  transactionId : ι
  deriving DecidableEq

/-- `GracefulCleanupQueueEntry`. -/
structure GracefulCleanupQueueEntry (ι : Type) where
  requestId : ℕ
  transactionId : ι
  requiredSafeTime : HybridTime
  deriving DecidableEq

/-- `CleanupType`. -/
inductive CleanupType
  | graceful
  | immediate
  deriving DecidableEq

/-- `TransactionParticipantContext`: what clocks and the safe time are read as. -/
structure ParticipantContext where
  now : HybridTime := kMin
  /-- `SafeTimeForTransactionParticipant`. -/
  safeTime : HybridTime := kMin
  /-- `CoarseMonoClock::now`, in seconds. -/
  coarseNow : ℕ := 0
  deriving DecidableEq

/-- `TransactionParticipant::Impl`. -/
structure TransactionParticipant (ι : Type) where
  transactions : ι → Option RunningTransaction := fun _ => none
  /-- In increasing order. -/
  runningRequests : List ℕ := []
  /-- In increasing order: the first one is the top of the priority queue. -/
  completeRequests : List ℕ := []
  requestSerial : ℕ := 0
  immediateCleanupQueue : List (ImmediateCleanupQueueEntry ι) := []
  gracefulCleanupQueue : List (GracefulCleanupQueueEntry ι) := []
  removeQueue : List (RemoveQueueEntry ι) := []
  lastSafeTime : HybridTime := kMin
  recentlyRemovedTransactions : List ι := []
  recentlyRemovedTransactionsCleanupQueue : List (ι × ℕ) := []
  cleanupCache : LRUCache ι
  /-- The transactions for which a remove intents task was given to the strand. -/
  removeIntentsTasks : List ι := []

namespace TransactionParticipant

variable {ι : Type} [DecidableEq ι]

variable (s : TransactionParticipant ι)

def setTransaction (id : ι) (txn : Option RunningTransaction) :
    TransactionParticipant ι :=
  { s with transactions := update s.transactions id txn }

/-! ## Removal -/

/-- `ScheduleRemoveIntents`. -/
def scheduleRemoveIntents (id : ι) (txn : RunningTransaction) :
    TransactionParticipant ι :=
  if txn.removeIntentsTaskUsed then s
  else
    { s.setTransaction id (some { txn with removeIntentsTaskUsed := true }) with
      removeIntentsTasks := s.removeIntentsTasks ++ [id] }

/-- `CleanupRecentlyRemovedTransactions`. -/
def cleanupRecentlyRemovedTransactions (now : ℕ) :
    TransactionParticipant ι :=
  let queue := s.recentlyRemovedTransactionsCleanupQueue
  let removed := (queue.takeWhile (·.2 ≤ now)).map (·.1)
  { s with
    recentlyRemovedTransactions := s.recentlyRemovedTransactions.filter (· ∉ removed)
    recentlyRemovedTransactionsCleanupQueue := queue.dropWhile (·.2 ≤ now) }

variable (context : ParticipantContext)

/-- `RemoveTransaction`. -/
def removeTransaction (id : ι) :
    TransactionParticipant ι :=
  let s := s.cleanupRecentlyRemovedTransactions context.coarseNow
  { s.setTransaction id none with
    recentlyRemovedTransactionsCleanupQueue :=
      s.recentlyRemovedTransactionsCleanupQueue ++ [(id, context.coarseNow + 15)]
    recentlyRemovedTransactions := s.recentlyRemovedTransactions ++ [id] }

/-- A transaction is taken out of `transactions_`, and its intents are to be removed. -/
def cleanTransaction (id : ι) :
    TransactionParticipant ι :=
  match s.transactions id with
  | none => s
  | some txn => (s.scheduleRemoveIntents id txn).removeTransaction context id

/-- `RemoveUnlocked`. -/
def removeUnlocked (id : ι) :
    TransactionParticipant ι :=
  match s.transactions id with
  | none => s
  | some _ =>
    if s.runningRequests = [] then s.cleanTransaction context id
    else
      { s with immediateCleanupQueue := s.immediateCleanupQueue ++ [⟨s.requestSerial, id⟩] }

/-- The loop of `ProcessRemoveQueueUnlocked`, with what is left of the queue. -/
def processRemoveQueueLoop (context : ParticipantContext) :
    List (RemoveQueueEntry ι) → TransactionParticipant ι →
      List (RemoveQueueEntry ι) × TransactionParticipant ι
  | [], s => ([], s)
  | front :: queue, s =>
    match s.transactions front.id with
    | none => processRemoveQueueLoop context queue s
    | some txn =>
      if txn.localCommitTime.isSome then processRemoveQueueLoop context queue s
      else if context.safeTime ≤ front.time then (front :: queue, s)
      else processRemoveQueueLoop context queue (s.removeUnlocked context front.id)

/-- `ProcessRemoveQueueUnlocked`. -/
def processRemoveQueueUnlocked :
    TransactionParticipant ι :=
  if s.removeQueue = [] then s
  else if ¬context.safeTime.isValid then s
  else
    let (queue, s) := processRemoveQueueLoop context s.removeQueue
      { s with lastSafeTime := context.safeTime }
    { s with removeQueue := queue }

/-- `EnqueueRemoveUnlocked`. -/
def enqueueRemoveUnlocked (id : ι) :
    TransactionParticipant ι :=
  let s : TransactionParticipant ι := { s with removeQueue := s.removeQueue ++ [⟨id, context.now⟩] }
  s.processRemoveQueueUnlocked context

/-- `CleanTransactionsQueue`, for a queue of any kind of entries, with what is left of the queue. -/
def cleanTransactionsQueue {α : Type} (requestId : α → ℕ) (transactionId : α → ι) (ready : α → Bool)
    (context : ParticipantContext) :
    List α → TransactionParticipant ι → List α × TransactionParticipant ι
  | [], s => ([], s)
  | front :: queue, s =>
    -- `min_request` is the first running request, or the largest number if there is none
    if s.runningRequests.head?.any (· ≤ requestId front) then (front :: queue, s)
    else if !ready front then (front :: queue, s)
    else
      cleanTransactionsQueue requestId transactionId ready context queue
        (s.cleanTransaction context (transactionId front))

/-- `CleanTransactionsQueue` for the immediate cleanup queue, of which entries are always ready. -/
def cleanImmediateQueue :
    TransactionParticipant ι :=
  let (queue, s) := cleanTransactionsQueue (·.requestId) (·.transactionId) (fun _ => true) context
    s.immediateCleanupQueue s
  { s with immediateCleanupQueue := queue }

/-- `CleanTransactionsQueue` for the graceful cleanup queue. -/
def cleanGracefulQueue :
    TransactionParticipant ι :=
  let (queue, s) := cleanTransactionsQueue (·.requestId) (·.transactionId)
    (fun front => front.requiredSafeTime ≤ context.safeTime) context s.gracefulCleanupQueue s
  { s with gracefulCleanupQueue := queue }

/-- `CleanTransactionsUnlocked`. -/
def cleanTransactionsUnlocked :
    TransactionParticipant ι :=
  ((s.processRemoveQueueUnlocked context).cleanImmediateQueue context).cleanGracefulQueue context

/-! ## Calls -/

/-- `Add`. -/
def add (id : ι) :
    TransactionParticipant ι :=
  if (s.transactions id).isSome then s
  else
    let s := s.cleanupRecentlyRemovedTransactions context.coarseNow
    if id ∈ s.recentlyRemovedTransactions then s
    else if id ∈ s.cleanupCache.entries then
      { s with cleanupCache := { s.cleanupCache with entries := s.cleanupCache.entries.erase id } }
    else s.setTransaction id (some {})

/-- `NextRequestIdUnlocked`. -/
def nextRequestIdUnlocked : TransactionParticipant ι :=
  { s with requestSerial := s.requestSerial + 1 }

/-- `RegisterRequest`. The request is the new `request_serial_`. -/
def registerRequest : TransactionParticipant ι :=
  let s := s.nextRequestIdUnlocked
  { s with runningRequests := s.runningRequests ++ [s.requestSerial] }

/-- Requests that are complete and now come first: the loop of `UnregisterRequest`. -/
def popCompleteRequests : List ℕ → List ℕ → List ℕ × List ℕ
  | running :: runningRequests, complete :: completeRequests =>
    if complete = running then popCompleteRequests runningRequests completeRequests
    else (running :: runningRequests, complete :: completeRequests)
  | runningRequests, completeRequests => (runningRequests, completeRequests)

/-- `UnregisterRequest`. -/
def unregisterRequest (request : ℕ) :
    TransactionParticipant ι :=
  match s.runningRequests with
  | [] => s
  | front :: runningRequests =>
    if front ≠ request then
      { s with completeRequests := s.completeRequests.orderedInsert (· ≤ ·) request }
    else
      let (runningRequests, completeRequests) :=
        popCompleteRequests runningRequests s.completeRequests
      { s with
        runningRequests := runningRequests
        completeRequests := completeRequests }.cleanTransactionsUnlocked context

/-- A status received for a transaction: by `DoStatusReceived` or by `TransactionsStatus`. -/
def statusReceived (id : ι)
    (status : TransactionStatus) (timeOfStatus : HybridTime) : TransactionParticipant ι :=
  match s.transactions id with
  | none => s
  | some txn =>
    let (remove, txn) := txn.updateStatus status timeOfStatus
    let s := s.setTransaction id (some txn)
    if remove then s.enqueueRemoveUnlocked context id else s

/-- `AbortReceived`. -/
def abortReceived (id : ι)
    (result : TransactionStatusResult) : TransactionParticipant ι :=
  match s.transactions id with
  | none => s
  | some txn =>
    let (remove, txn) := txn.abortReceived result
    let s := s.setTransaction id (some txn)
    if remove then s.enqueueRemoveUnlocked context id else s

/-- `ProcessCleanup`. -/
def processCleanup (id : ι)
    (cleanupType : CleanupType) : TransactionParticipant ι :=
  match s.transactions id with
  | none =>
    if cleanupType = .immediate then { s with cleanupCache := s.cleanupCache.insert id } else s
  | some txn =>
    if txn.processingApply then s
    else if cleanupType = .graceful then
      { s with
        gracefulCleanupQueue := s.gracefulCleanupQueue ++ [⟨s.requestSerial, id, context.now⟩] }
    else s.removeUnlocked context id

end TransactionParticipant

/-! ## Applying -/

/-- Where a call of `ProcessApply` is that has set the local commit time. -/
inductive ApplyCall
  /-- Before `ApplyIntents`. -/
  | applying
  /-- After `ApplyIntents`; `active` is whether intents are left. -/
  | applied (active : Bool)
  deriving DecidableEq

/-- Where the task is that applies the intents of a large transaction. -/
inductive ApplyTask
  /-- Before `ApplyIntents`. -/
  | running
  /-- After `ApplyIntents`. -/
  | applied (active : Bool)
  /-- After the last `apply_state_` was stored, and before `RemoveUnlocked`. -/
  | finished
  deriving DecidableEq

/-- A participant with the calls and tasks that are applying intents. -/
structure ParticipantSystem (ι : Type) where
  participant : TransactionParticipant ι
  context : ParticipantContext := {}
  applyCalls : ι → Option ApplyCall := fun _ => none
  applyTasks : ι → Option ApplyTask := fun _ => none
  /-- The transactions of which an `APPLYING` operation was processed, so far. -/
  processed : List ι := []
  /-- The transactions whose local commit time was set, so far. -/
  committed : List ι := []
  /-- The transactions whose intents have all been applied to the regular DB, so far. -/
  applied : List ι := []

namespace ParticipantSystem

variable {ι : Type} [DecidableEq ι]

/-- A call, a step of a call, or what the environment does. -/
inductive Event (ι : Type)
  /-- Time passes. -/
  | clock (context : ParticipantContext)
  /-- `Add`: the first intents of a transaction are written. -/
  | add (id : ι)
  | registerRequest
  | unregisterRequest (request : ℕ)
  /-- A status request takes a number. -/
  | nextRequestId
  /-- `ProcessApply` up to where the mutex is released. -/
  | processApply (id : ι) (commitHt : HybridTime)
  /-- `ApplyIntents` in `ProcessApply`; `active` is whether intents are left. -/
  | applyIntents (id : ι) (active : Bool)
  | updateAppliedTransaction (id : ι)
  /-- `ApplyIntents` in the task. -/
  | taskApplyIntents (id : ι) (active : Bool)
  /-- The task stores `apply_state_`. -/
  | taskSetApplyData (id : ι)
  /-- The task removes the transaction. -/
  | taskRemove (id : ι)
  | statusReceived (id : ι) (status : TransactionStatus) (timeOfStatus : HybridTime)
  | abortReceived (id : ι) (result : TransactionStatusResult)
  /-- `EnqueueRemoveUnlocked` for a transaction that may have been removed already: in
  `ResolveIntents`, or when a reply comes. -/
  | enqueueRemove (id : ι)
  | cleanup (id : ι) (cleanupType : CleanupType)
  /-- `Poll`. -/
  | poll
  deriving DecidableEq

variable (w : ParticipantSystem ι)

/-- A step with the participant only. -/
def withParticipant
    (f : TransactionParticipant ι → ParticipantContext → TransactionParticipant ι) :
    ParticipantSystem ι :=
  { w with participant := f w.participant w.context }

/-- `ProcessApply` up to where the mutex is released. If the transaction is not found, or has a
local commit time, then nothing is applied. -/
def processApply (id : ι) (commitHt : HybridTime) : ParticipantSystem ι :=
  let w := { w with processed := id :: w.processed }
  match w.participant.transactions id with
  | none => w
  | some txn =>
    if txn.localCommitTime.isSome then w
    else
      { w with
        participant := w.participant.setTransaction id (some (txn.setLocalCommitTime commitHt))
        applyCalls := update w.applyCalls id (some .applying)
        committed := id :: w.committed }

/-- All intents of a transaction have been applied, unless some are left. -/
def intentsApplied (id : ι) (active : Bool) : ParticipantSystem ι :=
  if active then w else { w with applied := id :: w.applied }

/-- `UpdateAppliedTransaction`. A task is started for the rest of the intents, if there are any. -/
def updateAppliedTransaction (id : ι) (active : Bool) : ParticipantSystem ι :=
  let w := { w with applyCalls := update w.applyCalls id none }
  match w.participant.transactions id with
  | none => w
  | some txn =>
    if !active then w.withParticipant (·.removeUnlocked · id)
    else if txn.applyIntentsTaskUsed then
      { w with
        participant := w.participant.setTransaction id (some { txn with applyActive := true }) }
    else
      { w with
        participant := w.participant.setTransaction id
          (some { txn with applyActive := true, applyIntentsTaskUsed := true })
        applyTasks := update w.applyTasks id (some .running) }

/-- The task stores `apply_state_`, also if the transaction is not in `transactions_` any more. -/
def taskSetApplyData (id : ι) (active : Bool) : ParticipantSystem ι :=
  { w with
    participant := w.participant.setTransaction id
      ((w.participant.transactions id).map fun txn => { txn with applyActive := active })
    applyTasks := update w.applyTasks id (some (if active then .running else .finished)) }

/-- What an event does, if it can happen. -/
def step : Event ι → Option (ParticipantSystem ι)
  | .clock context => some { w with context }
  | .add id => some (w.withParticipant (·.add · id))
  | .registerRequest => some (w.withParticipant fun s _ => s.registerRequest)
  | .unregisterRequest request =>
    if request ∈ w.participant.runningRequests ∧ request ∉ w.participant.completeRequests then
      some (w.withParticipant (·.unregisterRequest · request))
    else none
  | .nextRequestId => some (w.withParticipant fun s _ => s.nextRequestIdUnlocked)
  | .processApply id commitHt => some (w.processApply id commitHt)
  | .applyIntents id active =>
    if w.applyCalls id = some .applying then
      some ({ w with applyCalls := update w.applyCalls id (some (.applied active)) }.intentsApplied
        id active)
    else none
  | .updateAppliedTransaction id =>
    match w.applyCalls id with
    | some (.applied active) => some (w.updateAppliedTransaction id active)
    | _ => none
  | .taskApplyIntents id active =>
    if w.applyTasks id = some .running then
      some ({ w with applyTasks := update w.applyTasks id (some (.applied active)) }.intentsApplied
        id active)
    else none
  | .taskSetApplyData id =>
    match w.applyTasks id with
    | some (.applied active) => some (w.taskSetApplyData id active)
    | _ => none
  | .taskRemove id =>
    if w.applyTasks id = some .finished then
      some ({ w with applyTasks := update w.applyTasks id none }.withParticipant
        (·.removeUnlocked · id))
    else none
  | .statusReceived id status timeOfStatus =>
    some (w.withParticipant (·.statusReceived · id status timeOfStatus))
  | .abortReceived id result => some (w.withParticipant (·.abortReceived · id result))
  | .enqueueRemove id => some (w.withParticipant (·.enqueueRemoveUnlocked · id))
  | .cleanup id cleanupType => some (w.withParticipant (·.processCleanup · id cleanupType))
  | .poll => some (w.withParticipant (·.processRemoveQueueUnlocked ·))

def Step (e : Event ι) (w' : ParticipantSystem ι) : Prop :=
  w.step e = some w'

end ParticipantSystem
