import ZNbase.Consensus.Messages

/-!
# The write-ahead log

`Log` of `consensus/log.cc`, the log of a replica's operations, and the part of `LogReader` that
looks operations up by index.

- The appender thread takes the submitted batches one by one (`doAppend`), and then syncs what it
  wrote (`sync`) and runs the callbacks of the batches it synced. A callback is a value here, the
  arguments that `LogCache` and `PeerMessageQueue` bound into it; the owner of the log runs it.
- A truncation of the replica's log is not written. `entries` keeps overwritten operations, and the
  log index answers with the operation that was written last at an index.
- A roll over to a new segment syncs the old one first (`rollOver`). It can come before any batch,
  since the sizes of segments are left out, and so are metrics and the shutdown of the log. An
  append that fails stops the server.
-/

/-- The callback of an append: the arguments bound to `LogCache::LogCallback` and to
`PeerMessageQueue::LocalPeerAppendFinished`. -/
structure AppendCallback where
  lastIdxInBatch : ℕ
  lastId : OpId
  deriving DecidableEq

/-- A batch of operations on its way into the log. -/
structure LogEntryBatch where
  msgs : List ReplicateMsg
  committedOpId : OpId
  callback : AppendCallback
  deriving DecidableEq

/-- The id of the last operation of a batch, if it has one. -/
def LogEntryBatch.maxReplicateOpId (b : LogEntryBatch) : Option OpId :=
  b.msgs.getLast?.map (·.id)

/-- The state of a `Log` and of its appender. -/
structure Log where
  /-- Every operation that was written, in the order of the writes. -/
  entries : List ReplicateMsg := []
  /-- How many of `entries` a sync has covered. -/
  numSynced : ℕ := 0
  lastAppendedEntryOpId : OpId := OpId.min0
  lastSyncedEntryOpId : OpId := OpId.min0
  /-- Batches submitted to the appender and not written. -/
  submitted : List LogEntryBatch := []
  /-- Batches written and not synced. -/
  syncBatch : List LogEntryBatch := []
  /-- Callbacks of synced batches that have not run. -/
  callbacks : List AppendCallback := []
  deriving DecidableEq

namespace Log

variable (l : Log)

/-- Hands a batch to the appender. -/
def asyncAppendReplicates (msgs : List ReplicateMsg) (committedOpId : OpId)
    (callback : AppendCallback) : Log :=
  { l with submitted := l.submitted ++ [⟨msgs, committedOpId, callback⟩] }

/-- Writes a batch. -/
def doAppend (b : LogEntryBatch) : Log :=
  { l with
    entries := l.entries ++ b.msgs
    lastAppendedEntryOpId := b.maxReplicateOpId.getD l.lastAppendedEntryOpId }

/-- The appender writes the first submitted batch. It is not running callbacks then. -/
def processBatch : Option Log :=
  match l.callbacks, l.submitted with
  | [], b :: rest =>
    let l := l.doAppend b
    some { l with submitted := rest, syncBatch := l.syncBatch ++ [b] }
  | _, _ => none

/-- Makes what was written durable. -/
def sync : Log :=
  { l with numSynced := l.entries.length, lastSyncedEntryOpId := l.lastAppendedEntryOpId }

/-- The appender syncs, and goes on to the callbacks of the batches it has written. -/
def groupWork : Option Log :=
  match l.callbacks with
  | [] =>
    let l := l.sync
    some { l with syncBatch := [], callbacks := l.syncBatch.map (·.callback) }
  | _ :: _ => none

/-- `RollOver`: what was written to the old segment is synced, and reported as synced. -/
def rollOver : Log := l.sync

/-- The next callback of a synced batch. -/
def takeCallback : Option (AppendCallback × Log) :=
  match l.callbacks with
  | [] => none
  | c :: rest => some (c, { l with callbacks := rest })

/-- `GetLatestEntryOpId`. -/
def getLatestEntryOpId : OpId := l.lastSyncedEntryOpId

/-- Whether `WaitForSafeOpIdToApply` returns in this state. -/
def isSafeOpIdToApply (minAllowed : OpId) : Bool :=
  decide (minAllowed ≤ l.lastSyncedEntryOpId)

/-- `WaitUntilAllFlushed`: the state once everything that was submitted is written and synced, and
the callbacks that ran until then, in order. -/
def waitUntilAllFlushed : List AppendCallback × Log :=
  let written := l.submitted.foldl doAppend l
  let synced := written.sync
  (l.callbacks ++ (l.syncBatch ++ l.submitted).map (·.callback),
    { synced with submitted := [], syncBatch := [], callbacks := [] })

/-- `ResetLastSyncedEntryOpId`, with the callbacks that run while it waits. -/
def resetLastSyncedEntryOpId (opId : OpId) : List AppendCallback × Log :=
  let (callbacks, l) := l.waitUntilAllFlushed
  (callbacks, { l with lastSyncedEntryOpId := opId })

/-! ## Reading by index -/

/-- The operation the log index has at an index: the one written there last. -/
def entryAt (index : ℕ) : Option ReplicateMsg :=
  l.entries.reverse.find? fun m => m.id.index = index

/-! ## Steps of the appender -/

/-- The operations that were handed to the log, written or not. -/
def handed : List ReplicateMsg := l.entries ++ l.submitted.flatMap (·.msgs)

variable {l} {l' : Log}

/-- The first submitted batch is written. -/
lemma processBatch_spec (h : l.processBatch = some l') :
    ∃ b rest, l.submitted = b :: rest ∧
      l' = { l.doAppend b with submitted := rest, syncBatch := l.syncBatch ++ [b] } := by
  rw [processBatch] at h
  split at h
  case h_1 b rest _ hsubm =>
    cases h
    exact ⟨b, rest, hsubm, rfl⟩
  case h_2 => cases h

/-- All that was written is synced, and the callbacks of the group are to run. -/
lemma groupWork_spec (h : l.groupWork = some l') :
    l' = { l.sync with syncBatch := [], callbacks := l.syncBatch.map (·.callback) } := by
  rw [groupWork] at h
  split at h
  · cases h
    rfl
  · cases h

/-- A callback is taken off the list of those that have to run. -/
lemma takeCallback_spec {c : AppendCallback} (h : l.takeCallback = some (c, l')) :
    ∃ rest, l' = { l with callbacks := rest } := by
  rw [takeCallback] at h
  split at h
  · cases h
  case h_2 c' rest _ =>
    cases h
    exact ⟨rest, rfl⟩

end Log
