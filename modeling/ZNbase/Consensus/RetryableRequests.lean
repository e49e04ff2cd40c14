import Mathlib.Data.List.TakeWhile
import Mathlib.Order.Lattice
import ZNbase.Common.OpId

/-!
# Retryable requests

`RetryableRequests` of `consensus/retryable_requests.cc`: per client, the requests that are
running and the ranges of request ids that were replicated, kept to turn a retried write away.

- `running` is unique both by request id and by operation id, as the two indexes of
  `RunningRetryableRequests` are. `replicated` is kept in the order of `LastIdIndex` and is unique
  by `minOpId` as well.
- Request ids are integers. The sums in the source stay between two ids that are present, so none
  of them overflows.
- A `DFATAL` line is what it is in a release build, a log line.
- The metrics are left out, and so is since when a client has had no requests.
-/

/-- The id a client gives a request. -/
abbrev RetryableRequestId := ℤ

/-- A point of the restart-safe coarse clock. -/
abbrev RestartSafeCoarseTimePoint := ℤ

/-- The id of a client. -/
structure ClientId where
  id1 : ℕ
  id2 : ℕ
  deriving DecidableEq

/-- The id of a request that comes from no client, `ClientId::Nil()`. -/
def ClientId.nil : ClientId := ⟨0, 0⟩

/-- The part of a `WriteRequestPB` that is used here. -/
structure WriteRequest where
  clientId : ClientId
  requestId : RetryableRequestId
  minRunningRequestId : RetryableRequestId
  deriving DecidableEq

/-- The part of a `ReplicateMsg` that is used here. -/
structure RetryableMsg where
  id : OpId
  writeRequest : Option WriteRequest
  deriving DecidableEq

/-- `ReplicateData`: a request that has a client. -/
def RetryableMsg.replicateData (msg : RetryableMsg) : Option WriteRequest :=
  msg.writeRequest.filter fun w => w.clientId ≠ ClientId.nil

/-- The kinds of status that are reported for a request. -/
inductive StatusCode
  | ok
  | expired
  | alreadyPresent
  | other
  deriving DecidableEq

/-- A status with its message. -/
structure Status where
  code : StatusCode
  message : String := ""
  deriving DecidableEq

/-- The status of a request below the smallest id its client still runs. -/
def Status.expired (requestId minRunning : RetryableRequestId) : Status :=
  ⟨.expired, s!"Request id {requestId} is less than min running {minRunning}"⟩

/-- The status of a request that is present already. -/
def Status.duplicate : Status := ⟨.alreadyPresent, "Duplicate request"⟩

/-- A consensus round, by its number. -/
structure RetryableRound where
  round : ℕ
  replicateMsg : RetryableMsg
  boundTerm : ℕ
  deriving DecidableEq

/-- A call of `NotifyReplicationFinished` on a round. -/
structure RoundNotification where
  round : RetryableRound
  status : Status
  leaderTerm : ℕ
  deriving DecidableEq

/-- A request that was registered and has not finished, with the rounds that repeat it. -/
structure RunningRetryableRequest where
  requestId : RetryableRequestId
  opId : OpId
  time : RestartSafeCoarseTimePoint
  duplicateRounds : List RetryableRound := []
  deriving DecidableEq

/-- A range of replicated request ids. -/
structure ReplicatedRetryableRequestRange where
  firstId : RetryableRequestId
  lastId : RetryableRequestId
  minOpId : OpId
  minTime : RestartSafeCoarseTimePoint
  maxTime : RestartSafeCoarseTimePoint
  deriving DecidableEq

/-- What is known about one client. -/
structure ClientRetryableRequests where
  running : List RunningRetryableRequest := []
  replicated : List ReplicatedRetryableRequestRange := []
  minRunningRequestId : RetryableRequestId := 0
  deriving DecidableEq

namespace ReplicatedRetryableRequestRange

/-- The range of a single request. -/
def single (id : RetryableRequestId) (opId : OpId) (time : RestartSafeCoarseTimePoint) :
    ReplicatedRetryableRequestRange :=
  ⟨id, id, opId, time, time⟩

def insertTime (r : ReplicatedRetryableRequestRange) (time : RestartSafeCoarseTimePoint) :
    ReplicatedRetryableRequestRange :=
  { r with minTime := min r.minTime time, maxTime := max r.maxTime time }

def prepareJoinWithPrev (r prev : ReplicatedRetryableRequestRange) :
    ReplicatedRetryableRequestRange :=
  { r with
    minTime := min r.minTime prev.minTime
    maxTime := max r.maxTime prev.maxTime
    firstId := prev.firstId }

end ReplicatedRetryableRequestRange

open ReplicatedRetryableRequestRange

namespace ClientRetryableRequests

/-! ## The replicated ranges -/

/-- The ranges before `replicated_indexed_by_last_id.lower_bound(id)`. -/
def belowId (ranges : List ReplicatedRetryableRequestRange) (id : RetryableRequestId) :
    List ReplicatedRetryableRequestRange :=
  ranges.takeWhile (·.lastId < id)

/-- The ranges from `replicated_indexed_by_last_id.lower_bound(id)` on. -/
def fromId (ranges : List ReplicatedRetryableRequestRange) (id : RetryableRequestId) :
    List ReplicatedRetryableRequestRange :=
  ranges.dropWhile (·.lastId < id)

/-- Puts back a range whose `minOpId` was lowered to `minOpId`, between the ranges `before` and
`after` it. `modify` erases an element that it leaves with the key of another one. -/
def updateMinOpId (before : List ReplicatedRetryableRequestRange)
    (r : ReplicatedRetryableRequestRange) (minOpId : OpId)
    (after : List ReplicatedRetryableRequestRange) : List ReplicatedRetryableRequestRange :=
  if minOpId < r.minOpId then
    if (before ++ after).any (·.minOpId = minOpId) then before ++ after
    else before ++ { r with minOpId := minOpId } :: after
  else before ++ r :: after

variable (rangeTimeLimit : ℤ)

/-- Joins the range `r` with the one before it, when exactly one id lies between them and the
times of both fit in the limit. -/
def tryJoinRanges (before : List ReplicatedRetryableRequestRange)
    (r : ReplicatedRetryableRequestRange) (minOpId : OpId)
    (after : List ReplicatedRetryableRequestRange) :
    Option (List ReplicatedRetryableRequestRange) :=
  match before.getLast? with
  | none => none
  | some prev =>
    if prev.lastId + 2 ≠ r.firstId then none
    else if prev.minTime + rangeTimeLimit < r.maxTime then none
    else
      some (updateMinOpId before.dropLast (r.prepareJoinWithPrev prev)
        (min minOpId prev.minOpId) after)

/-- Adds `requestId` to the end of the last range of `before`, if it ends just before it. -/
def tryJoinToEndOfRange (before : List ReplicatedRetryableRequestRange)
    (opId : OpId) (requestId : RetryableRequestId) (time : RestartSafeCoarseTimePoint)
    (after : List ReplicatedRetryableRequestRange) :
    Option (List ReplicatedRetryableRequestRange) :=
  match before.getLast? with
  | none => none
  | some prev =>
    if prev.lastId + 1 ≠ requestId then none
    else if prev.minTime + rangeTimeLimit < time then none
    else
      let r := prev.insertTime time
      some (updateMinOpId before.dropLast { r with lastId := r.lastId + 1 }
        (min prev.minOpId opId) after)

/-- Adds a range of its own. `emplace` does nothing if another range has the same `lastId` or the
same `minOpId`. -/
def emplaceRange (before : List ReplicatedRetryableRequestRange)
    (r : ReplicatedRetryableRequestRange) (after : List ReplicatedRetryableRequestRange) :
    List ReplicatedRetryableRequestRange :=
  if (before ++ after).any fun s => s.lastId = r.lastId ∨ s.minOpId = r.minOpId then before ++ after
  else before ++ r :: after

/-- Adds a replicated request to the ranges. -/
def addReplicated (ranges : List ReplicatedRetryableRequestRange)
    (opId : OpId) (requestId : RetryableRequestId) (time : RestartSafeCoarseTimePoint) :
    List ReplicatedRetryableRequestRange :=
  let before := belowId ranges requestId
  let joinOrEmplace :=
    (tryJoinToEndOfRange rangeTimeLimit before opId requestId time (fromId ranges requestId)).getD
      (emplaceRange before (single requestId opId time) (fromId ranges requestId))
  match fromId ranges requestId with
  | [] => joinOrEmplace
  | next :: after =>
    if next.firstId ≤ requestId then ranges
    else if next.firstId = requestId + 1 then
      let opId := min next.minOpId opId
      let next := next.insertTime time
      (tryJoinRanges rangeTimeLimit before next opId after).getD
        (updateMinOpId before { next with firstId := next.firstId - 1 } opId after)
    else joinOrEmplace

variable (c : ClientRetryableRequests)

/-- Forgets the ids below a new smallest running id. -/
def cleanupReplicatedRequests
    (newMinRunningRequestId : RetryableRequestId) : ClientRetryableRequests :=
  if c.minRunningRequestId < newMinRunningRequestId then
    let kept :=
      match fromId c.replicated newMinRunningRequestId with
      | [] => []
      | r :: after =>
        if r.firstId < newMinRunningRequestId then
          { r with firstId := newMinRunningRequestId } :: after
        else r :: after
    { c with replicated := kept, minRunningRequestId := newMinRunningRequestId }
  else c

@[simp] lemma running_cleanupReplicatedRequests (id : RetryableRequestId) :
    (c.cleanupReplicatedRequests id).running = c.running := by
  rw [cleanupReplicatedRequests]
  split_ifs <;> rfl

@[simp] lemma minRunningRequestId_cleanupReplicatedRequests (id : RetryableRequestId) :
    (c.cleanupReplicatedRequests id).minRunningRequestId = max c.minRunningRequestId id := by
  rw [cleanupReplicatedRequests]
  split_ifs with hlt
  · exact (max_eq_right hlt.le).symm
  · exact (max_eq_left (not_lt.1 hlt)).symm

/-- Whether a replicated range contains the id. -/
def isReplicated (id : RetryableRequestId) : Bool :=
  match fromId c.replicated id with
  | [] => false
  | r :: _ => r.firstId ≤ id

/-- The ranges in the order of `OpIdIndex`. -/
def byMinOpId (ranges : List ReplicatedRetryableRequestRange) :
    List ReplicatedRetryableRequestRange :=
  ranges.mergeSort fun r s => r.minOpId ≤ s.minOpId

/-- Erases ranges, in the order of `OpIdIndex`, up to the first one that is not old. -/
def cleanExpiredReplicated (cleanStart : RestartSafeCoarseTimePoint) : ClientRetryableRequests :=
  let expired := (byMinOpId c.replicated).takeWhile (·.maxTime < cleanStart)
  { c with replicated := c.replicated.filter (· ∉ expired) }

/-! ## The running requests -/

/-- Adds a running request; a request with its id, or else one with its operation id, prevents
that and gets the round as a duplicate. -/
def emplaceRunning (q : RunningRetryableRequest)
    (round : RetryableRound) : ClientRetryableRequests × Bool :=
  let addDuplicate (p : RunningRetryableRequest → Bool) : ClientRetryableRequests :=
    { c with
      running := c.running.map fun q' =>
        if p q' then { q' with duplicateRounds := q'.duplicateRounds ++ [round] } else q' }
  if c.running.any (·.requestId = q.requestId) then
    (addDuplicate (·.requestId = q.requestId), false)
  else if c.running.any (·.opId = q.opId) then (addDuplicate (·.opId = q.opId), false)
  else ({ c with running := q :: c.running }, true)

/-! ## The calls, for one client -/

/-- `Register` of a request of this client. -/
def register (round : RetryableRound) (w : WriteRequest)
    (entryTime : RestartSafeCoarseTimePoint) :
    ClientRetryableRequests × Bool × List RoundNotification :=
  let c := c.cleanupReplicatedRequests w.minRunningRequestId
  if w.requestId < c.minRunningRequestId then
    (c, false, [⟨round, .expired w.requestId c.minRunningRequestId, round.boundTerm⟩])
  else if c.isReplicated w.requestId then (c, false, [⟨round, .duplicate, round.boundTerm⟩])
  else
    let r := c.emplaceRunning ⟨w.requestId, round.replicateMsg.id, entryTime, []⟩ round
    (r.1, r.2, [])

/-- `ReplicationFinished` of a request of this client. -/
def replicationFinished (c : ClientRetryableRequests) (opId : OpId)
    (w : WriteRequest) (status : Status) (leaderTerm : ℕ) :
    ClientRetryableRequests × List RoundNotification :=
  match c.running.find? (·.requestId = w.requestId) with
  | none => (c, [])
  | some q =>
    let statusForDuplicate := if status.code = .ok then Status.duplicate else status
    let notifications := q.duplicateRounds.map fun r => ⟨r, statusForDuplicate, leaderTerm⟩
    let c := { c with running := c.running.filter (·.requestId ≠ w.requestId) }
    if status.code = .ok then
      ({ c with replicated := addReplicated rangeTimeLimit c.replicated opId w.requestId q.time },
        notifications)
    else (c, notifications)

/-- `Bootstrap` of a request of this client. -/
def bootstrap (c : ClientRetryableRequests) (opId : OpId) (w : WriteRequest)
    (entryTime : RestartSafeCoarseTimePoint) : ClientRetryableRequests :=
  if c.running.any (·.requestId = w.requestId) then c
  else
    let c := c.cleanupReplicatedRequests w.minRunningRequestId
    { c with replicated := addReplicated rangeTimeLimit c.replicated opId w.requestId entryTime }

end ClientRetryableRequests

/-- The clients; one that was never seen has the default value, as in `clients_[id]`. -/
structure RetryableRequests where
  clients : ClientId → ClientRetryableRequests

namespace RetryableRequests

/-- No request was seen yet. -/
def init : RetryableRequests := ⟨fun _ => {}⟩

variable (rr : RetryableRequests)

/-- Changes what is known about one client. -/
def setClient (id : ClientId) (c : ClientRetryableRequests) :
    RetryableRequests :=
  ⟨Function.update rr.clients id c⟩

lemma setClient_clients (id client : ClientId) (c : ClientRetryableRequests) :
    (rr.setClient id c).clients client = if client = id then c else rr.clients client := by
  simp [setClient, Function.update_apply]

/-- `CleanExpiredReplicatedAndGetMinOpId`, without the operation id that it returns. `forgotten` are
the clients that are erased if they have no requests. -/
def cleanExpiredReplicated (cleanStart : RestartSafeCoarseTimePoint) (forgotten : ClientId → Bool) :
    RetryableRequests where
  clients id :=
    let c := (rr.clients id).cleanExpiredReplicated cleanStart
    if c.replicated = [] ∧ c.running = [] ∧ forgotten id then {} else c

/-- `Register`, with the entry time it uses. Returns whether the request may be replicated, and
what is reported to the round otherwise. -/
def register (round : RetryableRound)
    (entryTime : RestartSafeCoarseTimePoint) :
    RetryableRequests × Bool × List RoundNotification :=
  match round.replicateMsg.replicateData with
  | none => (rr, true, [])
  | some w =>
    let r := (rr.clients w.clientId).register round w entryTime
    (rr.setClient w.clientId r.1, r.2)

/-- `ReplicationFinished`: a running request was replicated or failed. -/
def replicationFinished (rangeTimeLimit : ℤ) (rr : RetryableRequests) (msg : RetryableMsg)
    (status : Status) (leaderTerm : ℕ) : RetryableRequests × List RoundNotification :=
  match msg.replicateData with
  | none => (rr, [])
  | some w =>
    let r := (rr.clients w.clientId).replicationFinished rangeTimeLimit msg.id w status leaderTerm
    (rr.setClient w.clientId r.1, r.2)

/-- `Bootstrap`: a replicated request was found in the log of a starting tablet. -/
def bootstrap (rangeTimeLimit : ℤ) (rr : RetryableRequests) (msg : RetryableMsg)
    (entryTime : RestartSafeCoarseTimePoint) : RetryableRequests :=
  match msg.replicateData with
  | none => rr
  | some w =>
    rr.setClient w.clientId
      ((rr.clients w.clientId).bootstrap rangeTimeLimit msg.id w entryTime)

end RetryableRequests
